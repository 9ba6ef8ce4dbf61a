import DecimalScript.Proofs.DataLiterals
import Mathlib.Data.Finset.Card

/-!
# Containers inside their own text

A container may hold itself, directly or through others. While it is being shown, a mark stands for
it; otherwise it is shown in full. Only the containers on the way count: one that is held twice is
shown in full twice.

- `Display.Shows`: these rules, for a value inside the containers of a path.
- `Display.shows_within`: the text of a value is what they give, if the depth is above the number of
  containers that are not on the path. Each container that is entered leaves one less.
- `Display.Shows.eq_mark_iff`: the text of a container is its mark if and only if it is on the path.
- `Heap.Renders`: plain rendering, which knows no path. `Heap.renders_iff`: the values that have one
  are those without a cycle.
-/

namespace DecimalScript

namespace ContainerRef

/-- What stands for a container inside its own text. -/
def mark : ContainerRef → String
  | array _ => Display.arrayMark
  | dictionary _ => Display.dictionaryMark

/-- A container is told from its value: arrays and dictionaries are values of their own kinds. -/
theorem value_inj {c c' : ContainerRef} (h : c.value = c'.value) : c = c' := by
  cases c with
  | array ref =>
    cases c' with
    | array ref' => exact congrArg array (Value.array.inj h)
    | dictionary ref' => exact nomatch h
  | dictionary ref =>
    cases c' with
    | array ref' => exact nomatch h
    | dictionary ref' => exact congrArg dictionary (Value.dictionary.inj h)

end ContainerRef

namespace Display

variable {heap : Heap} {path : List ContainerRef} {c : ContainerRef} {v w : Value} {text : String}
  {texts texts' : Value → String}

/-! ### The rules -/

/-- The text of a value that is no container. -/
def leaf? (heap : Heap) : Value → Option String
  | .number d => some d.plain
  | .string s => some s
  | .boolean b => some (if b then "true" else "false")
  | .function ref => some (ofFunction (heap.function? ref))
  | .array _ => none
  | .dictionary _ => none

/-- The text of a container in full, given the texts of what it holds. -/
def inFull (heap : Heap) (texts : Value → String) : ContainerRef → String
  | .array ref => bracketed ((heap.array ref).toList.map (nested texts))
  | .dictionary ref =>
    braced ((heap.dictionary ref).entries.map fun entry =>
      (nested texts entry.1, nested texts entry.2))

/-- How a value is shown inside the containers of a path: a container on the path by its mark, any
other container in full, with what it holds shown inside it too. -/
inductive Shows (heap : Heap) : List ContainerRef → Value → String → Prop
  | leaf {path : List ContainerRef} {v : Value} {text : String} (htext : leaf? heap v = some text) :
    Shows heap path v text
  | again {path : List ContainerRef} {c : ContainerRef} (hc : c ∈ path) :
    Shows heap path c.value c.mark
  | full {path : List ContainerRef} {c : ContainerRef} {texts : Value → String} (hc : c ∉ path)
    (hheld : ∀ w ∈ heap.held c, Shows heap (c :: path) w (texts w)) :
    Shows heap path c.value (inFull heap texts c)

/-- A container is never shown as a leaf. -/
theorem leaf?_value (heap : Heap) (c : ContainerRef) : leaf? heap c.value = none := by
  cases c <;> rfl

/-- Every value is a leaf or a container, so the rules cover all values. -/
theorem leaf_or_container (heap : Heap) (v : Value) :
    (∃ text, leaf? heap v = some text) ∨ ∃ c : ContainerRef, v = c.value := by
  cases v with
  | array ref => exact .inr ⟨.array ref, rfl⟩
  | dictionary ref => exact .inr ⟨.dictionary ref, rfl⟩
  | _ => exact .inl ⟨_, rfl⟩

/-- A text in full depends only on the texts of what the container holds. -/
theorem inFull_congr (h : ∀ w ∈ heap.held c, texts w = texts' w) :
    inFull heap texts c = inFull heap texts' c := by
  have hnested : ∀ w ∈ heap.held c, nested texts w = nested texts' w := by
    intro w hw
    cases w with
    | string s => rfl
    | _ => exact h _ hw
  cases c with
  | array ref => exact congrArg bracketed (List.map_congr_left hnested)
  | dictionary ref =>
    refine congrArg braced (List.map_congr_left fun entry hentry => ?_)
    obtain ⟨hkey, hvalue⟩ := Heap.mem_held hentry
    rw [hnested _ hkey, hnested _ hvalue]

namespace Shows

theorem eq_leaf (h : Shows heap path v text) {leaf : String} (hleaf : leaf? heap v = some leaf) :
    text = leaf := by
  cases h with
  | leaf htext => exact Option.some.inj (htext.symm.trans hleaf)
  | again | full =>
    rw [leaf?_value] at hleaf
    cases hleaf

/-- What is shown for a container. -/
theorem cases_container (h : Shows heap path c.value text) :
    (c ∈ path ∧ text = c.mark) ∨
      (c ∉ path ∧ ∃ texts, text = inFull heap texts c ∧
        ∀ w ∈ heap.held c, Shows heap (c :: path) w (texts w)) := by
  generalize hv : c.value = v at h
  cases h with
  | leaf htext =>
    rw [← hv, leaf?_value] at htext
    cases htext
  | again hc =>
    obtain rfl := ContainerRef.value_inj hv
    exact .inl ⟨hc, rfl⟩
  | full hc hheld =>
    obtain rfl := ContainerRef.value_inj hv
    exact .inr ⟨hc, _, rfl, hheld⟩

/-- A value is shown in one way. -/
theorem unique (h : Shows heap path v text) :
    ∀ {text' : String}, Shows heap path v text' → text = text' := by
  induction h with
  | leaf htext =>
    intro text' h'
    exact (h'.eq_leaf htext).symm
  | again hc =>
    intro text' h'
    rcases h'.cases_container with ⟨-, htext⟩ | ⟨hnew, -⟩
    · exact htext.symm
    · exact absurd hc hnew
  | full hnew _ ih =>
    intro text' h'
    rcases h'.cases_container with ⟨hc, -⟩ | ⟨-, texts', rfl, hheld'⟩
    · exact absurd hc hnew
    -- What the container holds is shown in one way, so it is in full.
    · exact inFull_congr fun w hw => ih w hw (hheld' w hw)

end Shows

/-! ### The text of a value follows the rules -/

theorem within_leaf (h : leaf? heap v = some text) (depth : Nat) (path : List ContainerRef) :
    within heap depth path v = text := by
  cases v with
  | array | dictionary => exact nomatch h
  | _ =>
    have htext := Option.some.inj h
    cases depth <;> exact htext

theorem within_again (hc : c ∈ path) (depth : Nat) : within heap depth path c.value = c.mark := by
  have hcontains : path.contains c = true := List.contains_iff_mem.mpr hc
  cases c with
  | array ref | dictionary ref =>
    cases depth with
    | zero => rfl
    | succ depth => exact if_pos hcontains

/-- A container beside the path is shown in full, one step less deep. -/
theorem within_full (hc : c ∉ path) (depth : Nat) :
    within heap (depth + 1) path c.value = inFull heap (within heap depth (c :: path)) c := by
  have hcontains : path.contains c = false := by simpa using hc
  cases c with
  | array ref => exact within_array hcontains
  | dictionary ref => exact within_dictionary hcontains

end Display

namespace Heap

variable {heap : Heap} {path : List ContainerRef} {c : ContainerRef} {w : Value}

/-- All containers of a heap. -/
def containers (heap : Heap) : Finset ContainerRef :=
  (Finset.range heap.arrays.size).image (fun i => .array ⟨i⟩) ∪
    (Finset.range heap.dictionaries.size).image fun i => .dictionary ⟨i⟩

/-- The containers that are not on a path. -/
def beside (heap : Heap) (path : List ContainerRef) : Finset ContainerRef :=
  heap.containers.filter (· ∉ path)

/-- The containers of a heap as a finite set, to count what is not on the path yet. -/
theorem mem_containers : c ∈ heap.containers ↔ heap.Has c := by
  unfold containers
  rw [Finset.mem_union, Finset.mem_image, Finset.mem_image]
  simp only [Finset.mem_range]
  -- Indices of arrays and of dictionaries overlap, so the other kind has to be excluded.
  cases c with
  | array ref =>
    constructor
    · rintro (⟨i, hi, heq⟩ | ⟨i, hi, heq⟩)
      · obtain rfl := ContainerRef.array.inj heq
        exact hi
      · exact nomatch heq
    · intro hhas
      exact .inl ⟨ref.index, hhas, rfl⟩
  | dictionary ref =>
    constructor
    · rintro (⟨i, hi, heq⟩ | ⟨i, hi, heq⟩)
      · exact nomatch heq
      · obtain rfl := ContainerRef.dictionary.inj heq
        exact hi
    · intro hhas
      exact .inr ⟨ref.index, hhas, rfl⟩

theorem card_beside_le (heap : Heap) (path : List ContainerRef) :
    (heap.beside path).card ≤ heap.containerCount := by
  calc (heap.beside path).card
    _ ≤ heap.containers.card := Finset.card_filter_le _ _
    _ ≤ _ := Finset.card_union_le _ _
    _ ≤ (Finset.range heap.arrays.size).card + (Finset.range heap.dictionaries.size).card :=
        Nat.add_le_add Finset.card_image_le Finset.card_image_le
    _ = heap.containerCount := by rw [Finset.card_range, Finset.card_range, containerCount]

theorem getD_of_size_le {α : Type} {xs : Array α} {i : Nat} (h : xs.size ≤ i) (d : α) :
    xs.getD i d = d := by
  rw [Array.getD_eq_getD_getElem?, Array.getElem?_eq_none h]
  rfl

/-- What holds something is in the heap. -/
theorem has_of_mem_held (h : w ∈ heap.held c) : heap.Has c := by
  cases c with
  | array ref =>
    by_contra hhas
    have hnone : heap.array ref = #[] := getD_of_size_le (Nat.le_of_not_lt hhas) _
    rw [held, hnone] at h
    exact absurd h List.not_mem_nil
  | dictionary ref =>
    by_contra hhas
    have hnone : heap.dictionary ref = {} := getD_of_size_le (Nat.le_of_not_lt hhas) _
    rw [held, hnone] at h
    exact absurd h List.not_mem_nil

/-- A container that is entered is beside the path no longer. -/
theorem card_beside_cons_lt (hhas : heap.Has c) (hc : c ∉ path) :
    (heap.beside (c :: path)).card < (heap.beside path).card := by
  have hsubset : heap.beside (c :: path) ⊆ heap.beside path := by
    intro d hd
    obtain ⟨hd, hnotin⟩ := Finset.mem_filter.mp hd
    exact Finset.mem_filter.mpr ⟨hd, List.not_mem_of_not_mem_cons hnotin⟩
  apply Finset.card_lt_card
  rw [Finset.ssubset_iff_of_subset hsubset]
  refine ⟨c, Finset.mem_filter.mpr ⟨mem_containers.mpr hhas, hc⟩, ?_⟩
  intro hmem
  exact (Finset.mem_filter.mp hmem).2 List.mem_cons_self

end Heap

namespace Display

variable {heap : Heap} {path : List ContainerRef} {c : ContainerRef} {v w : Value} {text : String}

/-- The depth is not used up: it goes down by one where a container is entered, and so does the
number of those beside the path. -/
theorem shows_within : ∀ {depth : Nat} {path : List ContainerRef} {v : Value},
    (heap.beside path).card < depth → Shows heap path v (within heap depth path v) := by
  intro depth
  induction depth with
  | zero =>
    intro path v hdepth
    exact absurd hdepth (Nat.not_lt_zero _)
  | succ depth ih =>
    intro path v hdepth
    rcases leaf_or_container heap v with ⟨text, htext⟩ | ⟨c, rfl⟩
    · rw [within_leaf htext]
      exact .leaf htext
    by_cases hc : c ∈ path
    · rw [within_again hc]
      exact .again hc
    · rw [within_full hc]
      -- If the container holds anything, it is one of the heap and was beside the path until now.
      refine .full hc fun w hw => ih ?_
      have hless := Heap.card_beside_cons_lt (Heap.has_of_mem_held hw) hc
      omega

/-- Every value is shown in exactly one way. -/
theorem existsUnique_shows (heap : Heap) (path : List ContainerRef) (v : Value) :
    ∃! text, Shows heap path v text :=
  ⟨_, shows_within (Nat.lt_succ_self _), fun _ h => h.unique (shows_within (Nat.lt_succ_self _))⟩

theorem shows_display (heap : Heap) (v : Value) : Shows heap [] v (heap.display v) :=
  shows_within (Nat.lt_succ_of_le (heap.card_beside_le []))

/-- Any larger bound shows the same text. -/
theorem within_eq_display {depth : Nat} (hdepth : heap.containerCount < depth) (v : Value) :
    within heap depth [] v = heap.display v :=
  (shows_within (Nat.lt_of_le_of_lt (heap.card_beside_le []) hdepth)).unique (shows_display heap v)

/-! ### Marks -/

/-- A text that begins with a character other than a point. Inside a container all texts do, and
there the mark goes on with a point. -/
def Opens (text : String) : Prop :=
  ∃ first rest, text.toList = first :: rest ∧ first ≠ '.'

theorem Opens.append {text : String} (h : Opens text) (more : String) : Opens (text ++ more) := by
  obtain ⟨first, rest, htext, hne⟩ := h
  exact ⟨first, rest ++ more.toList, by rw [String.toList_append, htext, List.cons_append], hne⟩

/-- A sequence opens like its first item, or like the closing mark if it has none. -/
theorem Opens.intercalate {items : List String} (h : ∀ item ∈ items, Opens item)
    {close : String} (hclose : Opens close) (separator : String) :
    Opens (separator.intercalate items ++ close) := by
  -- `intercalate` puts no separator in front of the first item, so the first two cases differ.
  cases items with
  | nil =>
    rw [String.intercalate_nil, String.empty_append]
    exact hclose
  | cons item items =>
    have hitem := h item List.mem_cons_self
    cases items with
    | nil =>
      rw [String.intercalate_singleton]
      exact hitem.append close
    | cons next items =>
      rw [String.intercalate_cons_cons, String.append_assoc, String.append_assoc]
      exact hitem.append _

theorem opens_plain (d : Decimal) : Opens d.plain := by
  obtain ⟨p, hchars, -, -⟩ := d.plainChars_eq
  unfold Decimal.plain Opens
  rw [String.toList_ofList, hchars]
  unfold Decimal.signText
  cases d.negative with
  | true => exact ⟨'-', p.chars, rfl, by decide⟩
  | false =>
    obtain ⟨digit, whole, hwhole⟩ := List.exists_cons_of_ne_nil p.whole_ne_nil
    have hdigit : digit < 10 := p.digit_lt digit (by simp [hwhole])
    refine ⟨Numeral.digitChar digit, whole.map Numeral.digitChar ++ p.tail, ?_,
      Numeral.digitChar_ne_point hdigit⟩
    simp [PointedDigits.chars, hwhole]

theorem opens_ofFunction (function : Option Function) : Opens (ofFunction function) := by
  unfold ofFunction
  split
  · exact ⟨'<', _, rfl, by decide⟩
  · split
    · exact ⟨'<', _, rfl, by decide⟩
    · rw [String.append_assoc]
      exact Opens.append ⟨'<', _, rfl, by decide⟩ _

/-- What a text in full is put between. -/
def brackets : ContainerRef → String × String
  | .array _ => ("[", "]")
  | .dictionary _ => ("\x7b", "\x7d")

/-- What stands in a text in full, between commas. -/
def items (heap : Heap) (texts : Value → String) : ContainerRef → List String
  | .array ref => (heap.array ref).toList.map (nested texts)
  | .dictionary ref =>
    (heap.dictionary ref).entries.map fun entry =>
      nested texts entry.1 ++ ": " ++ nested texts entry.2

theorem mark_eq (c : ContainerRef) :
    c.mark = (brackets c).1 ++ ("..." ++ (brackets c).2) := by
  cases c <;> rfl

/-- A container in full has its items between the same brackets as its mark. -/
theorem inFull_eq (heap : Heap) (texts : Value → String) (c : ContainerRef) :
    inFull heap texts c =
      (brackets c).1 ++ (", ".intercalate (items heap texts c) ++ (brackets c).2) := by
  cases c with
  | array ref => exact String.append_assoc
  | dictionary ref =>
    show braced _ = _
    rw [braced, List.map_map, String.append_assoc]
    rfl

theorem opens_brackets (c : ContainerRef) : Opens (brackets c).1 ∧ Opens (brackets c).2 := by
  cases c with
  | array ref =>
    show Opens "[" ∧ Opens "]"
    exact ⟨⟨'[', [], rfl, by decide⟩, ⟨']', [], rfl, by decide⟩⟩
  | dictionary ref =>
    show Opens "\x7b" ∧ Opens "\x7d"
    exact ⟨⟨'\x7b', [], rfl, by decide⟩, ⟨'\x7d', [], rfl, by decide⟩⟩

namespace Shows

theorem opens_container (h : Shows heap path c.value text) : Opens text := by
  rcases h.cases_container with ⟨-, rfl⟩ | ⟨-, texts, rfl, -⟩
  · rw [mark_eq]
    exact (opens_brackets c).1.append _
  · rw [inFull_eq]
    exact (opens_brackets c).1.append _

/-- Inside a container, texts do not begin with a point. -/
theorem opens_nested {texts : Value → String} (h : Shows heap path w (texts w)) :
    Opens (nested texts w) := by
  -- A nested string is quoted; for every other value the text is its own.
  cases w with
  | string s => exact ⟨'\x27', _, String.toList_ofList, by decide⟩
  | number d =>
    show Opens (texts (.number d))
    rw [h.eq_leaf rfl]
    exact opens_plain d
  | boolean b =>
    show Opens (texts (.boolean b))
    rw [h.eq_leaf rfl]
    cases b with
    | true => exact ⟨'t', _, rfl, by decide⟩
    | false => exact ⟨'f', _, rfl, by decide⟩
  | function ref =>
    show Opens (texts (.function ref))
    rw [h.eq_leaf rfl]
    exact opens_ofFunction _
  | array ref => exact opens_container (c := .array ref) h
  | dictionary ref => exact opens_container (c := .dictionary ref) h

/-- No item of a container opens with the dots of a mark, so a container in full is no mark. -/
theorem opens_items {texts : Value → String}
    (h : ∀ w ∈ heap.held c, Shows heap (c :: path) w (texts w)) :
    ∀ item ∈ items heap texts c, Opens item := by
  intro item hitem
  cases c with
  | array ref =>
    obtain ⟨w, hw, rfl⟩ := List.mem_map.mp hitem
    exact (h w hw).opens_nested
  | dictionary ref =>
    obtain ⟨entry, hentry, rfl⟩ := List.mem_map.mp hitem
    rw [String.append_assoc]
    exact (h _ (Heap.mem_held hentry).1).opens_nested.append _

/-- **The text of a container is its mark if and only if the container is being shown already.** -/
theorem eq_mark_iff (h : Shows heap path c.value text) : text = c.mark ↔ c ∈ path := by
  rcases h.cases_container with ⟨hc, htext⟩ | ⟨hc, texts, rfl, hheld⟩
  · exact iff_of_true htext hc
  · refine iff_of_false ?_ hc
    intro hmark
    rw [inFull_eq, mark_eq, String.append_right_inj] at hmark
    -- Behind the opening bracket the mark goes on with a point.
    obtain ⟨first, rest, hfirst, hne⟩ :=
      Opens.intercalate (opens_items hheld) (opens_brackets c).2 ", "
    rw [hmark, String.toList_append] at hfirst
    exact hne (List.cons.inj hfirst).1.symm

end Shows

end Display

/-! ### Plain rendering -/

namespace Heap

open Display

variable {heap : Heap} {path : List ContainerRef} {c d : ContainerRef} {v w : Value} {text : String}

/-- Plain rendering: every container in full, with no regard to where it stands. -/
inductive Renders (heap : Heap) : Value → String → Prop
  | leaf {v : Value} {text : String} (htext : leaf? heap v = some text) : Renders heap v text
  | full {c : ContainerRef} {texts : Value → String}
    (hheld : ∀ w ∈ heap.held c, Renders heap w (texts w)) :
    Renders heap c.value (inFull heap texts c)

/-- The container is the value, or it is held by it, directly or through others. -/
def Reaches (heap : Heap) (v : Value) (c : ContainerRef) : Prop :=
  ∃ first : ContainerRef, v = first.value ∧ Relation.ReflTransGen heap.Holds first c

/-- There is no cycle in the value: no container of it holds itself, directly or through others. -/
def Acyclic (heap : Heap) (v : Value) : Prop :=
  ∀ c, heap.Reaches v c → ¬ Relation.TransGen heap.Holds c c

theorem Renders.eq_leaf (h : heap.Renders v text) {leaf : String}
    (hleaf : leaf? heap v = some leaf) : text = leaf := by
  cases h with
  | leaf htext => exact Option.some.inj (htext.symm.trans hleaf)
  | full =>
    rw [leaf?_value] at hleaf
    cases hleaf

theorem Renders.container (h : heap.Renders c.value text) :
    ∃ texts, text = inFull heap texts c ∧ ∀ w ∈ heap.held c, heap.Renders w (texts w) := by
  generalize hv : c.value = v at h
  cases h with
  | leaf htext =>
    rw [← hv, leaf?_value] at htext
    cases htext
  | full hheld =>
    obtain rfl := ContainerRef.value_inj hv
    exact ⟨_, rfl, hheld⟩

theorem Renders.unique (h : heap.Renders v text) :
    ∀ {text' : String}, heap.Renders v text' → text = text' := by
  induction h with
  | leaf htext =>
    intro text' h'
    exact (h'.eq_leaf htext).symm
  | full _ ih =>
    intro text' h'
    obtain ⟨texts', rfl, hheld'⟩ := h'.container
    exact inFull_congr fun w hw => ih w hw (hheld' w hw)

/-! ### Cycles -/

/-- A container reaches itself and what the values in it reach. -/
theorem reaches_value_iff :
    heap.Reaches c.value d ↔ c = d ∨ ∃ w ∈ heap.held c, heap.Reaches w d := by
  constructor
  · rintro ⟨first, hvalue, hreach⟩
    obtain rfl := ContainerRef.value_inj hvalue
    rcases hreach.cases_head with heq | ⟨next, hholds, hrest⟩
    · exact .inl heq
    · exact .inr ⟨next.value, hholds, next, rfl, hrest⟩
  · rintro (rfl | ⟨w, hw, first, rfl, hreach⟩)
    · exact ⟨c, rfl, .refl⟩
    · exact ⟨c, rfl, .head hw hreach⟩

/-- A container holds itself if and only if something that it holds reaches it. -/
theorem holds_itself_iff :
    Relation.TransGen heap.Holds c c ↔ ∃ w ∈ heap.held c, heap.Reaches w c := by
  rw [Relation.TransGen.head'_iff]
  constructor
  · rintro ⟨next, hholds, hreach⟩
    exact ⟨next.value, hholds, next, rfl, hreach⟩
  · rintro ⟨w, hw, first, rfl, hreach⟩
    exact ⟨first, hw, hreach⟩

/-- What has a plain rendering has no cycle: a cycle would have to be rendered before itself. -/
theorem Renders.acyclic (h : heap.Renders v text) : heap.Acyclic v := by
  induction h with
  | leaf htext =>
    rintro c ⟨first, rfl, -⟩
    rw [leaf?_value] at htext
    cases htext
  | full _ ih =>
    intro d hreach hcycle
    rcases reaches_value_iff.mp hreach with rfl | ⟨w, hw, hreach⟩
    · -- A cycle at the container itself goes through something that it holds.
      obtain ⟨w, hw, hreach⟩ := holds_itself_iff.mp hcycle
      exact ih w hw _ hreach hcycle
    · exact ih w hw d hreach hcycle

/-- Without a cycle, what is shown is the plain rendering: no container comes back to one that is on
the way to it. -/
theorem renders_of_shows (h : Shows heap path v text) (hacyclic : heap.Acyclic v)
    (hahead : ∀ c ∈ path, ¬ heap.Reaches v c) : heap.Renders v text := by
  induction h with
  | leaf htext => exact .leaf htext
  | again hc => exact absurd (reaches_value_iff.mpr (.inl rfl)) (hahead _ hc)
  | @full path c texts hc _ ih =>
    refine .full fun w hw => ih w hw ?_ ?_
    · intro d hreach
      exact hacyclic d (reaches_value_iff.mpr (.inr ⟨w, hw, hreach⟩))
    · intro d hd hreach
      -- Nothing that is held comes back to the container, or to one on the way to it.
      rcases List.mem_cons.mp hd with rfl | hd
      · exact hacyclic d (reaches_value_iff.mpr (.inl rfl)) (holds_itself_iff.mpr ⟨w, hw, hreach⟩)
      · exact hahead d hd (reaches_value_iff.mpr (.inr ⟨w, hw, hreach⟩))

/-- **The values with a plain rendering are those without a cycle, and it is their text.** -/
theorem renders_iff : heap.Renders v text ↔ heap.Acyclic v ∧ text = heap.display v := by
  have hrenders (hacyclic : heap.Acyclic v) : heap.Renders v (heap.display v) :=
    renders_of_shows (shows_display heap v) hacyclic fun _ hc => absurd hc List.not_mem_nil
  constructor
  · intro h
    exact ⟨h.acyclic, h.unique (hrenders h.acyclic)⟩
  · rintro ⟨hacyclic, rfl⟩
    exact hrenders hacyclic

end Heap

/-- **Display ends on every heap, and it marks exactly the back edges.** However cyclic or shared
the containers of a heap are, each value is shown in exactly one way inside the containers of any
path. The text of a value is how it is shown inside none; and the bound on the depth is not reached,
so that any larger one gives the same text. A container shows as its mark if and only if it is being
shown already, on the path from the value to it, and in full otherwise. A value has a plain
rendering, with every container in full, if and only if there is no cycle in it, and then this is
its text. -/
theorem display_marks_exactly_back_edges (heap : Heap) (v : Value) :
    (∀ path w, ∃! text, Display.Shows heap path w text) ∧
    Display.Shows heap [] v (heap.display v) ∧
    (∀ depth, heap.containerCount < depth → Display.within heap depth [] v = heap.display v) ∧
    (∀ path (c : ContainerRef) text, Display.Shows heap path c.value text →
      (text = c.mark ↔ c ∈ path) ∧
      (c ∉ path → ∃ texts, text = Display.inFull heap texts c ∧
        ∀ w ∈ heap.held c, Display.Shows heap (c :: path) w (texts w))) ∧
    ∀ text, heap.Renders v text ↔ heap.Acyclic v ∧ text = heap.display v := by
  refine ⟨Display.existsUnique_shows heap, Display.shows_display heap v, ?_, ?_, ?_⟩
  · intro depth hdepth
    exact Display.within_eq_display hdepth v
  · intro path c text hshows
    refine ⟨hshows.eq_mark_iff, fun hc => ?_⟩
    rcases hshows.cases_container with ⟨hmem, -⟩ | ⟨-, hfull⟩
    · exact absurd hmem hc
    · exact hfull
  · intro text
    exact Heap.renders_iff

/-- An array that holds itself, a dictionary whose key is that array and whose value is itself, and
another array twice. -/
theorem display_marks_exactly_back_edges_shared :
    let heap : Heap :=
      { arrays := #[#[.array ⟨0⟩, .dictionary ⟨0⟩, .array ⟨1⟩, .array ⟨1⟩], #[]]
        dictionaries := #[⟨[(.array ⟨0⟩, .dictionary ⟨0⟩)]⟩] }
    let text := "[[...], \x7b[...]: \x7b...\x7d\x7d, [], []]"
    heap.containerCount < 7 ∧ heap.display (.array ⟨0⟩) = text ∧
      Display.within heap 7 [] (.array ⟨0⟩) = text ∧
      Display.Shows heap [] (.array ⟨0⟩) text ∧
      (text = (ContainerRef.array ⟨0⟩).mark ↔ ContainerRef.array ⟨0⟩ ∈ []) ∧
      ¬ heap.Renders (.array ⟨0⟩) text := by
  intro heap text
  have hdisplay : heap.display (.array ⟨0⟩) = text := by decide +kernel
  obtain ⟨-, hshows, hdeeper, hmark, hplain⟩ := display_marks_exactly_back_edges heap (.array ⟨0⟩)
  rw [hdisplay] at hshows
  have hholds : Value.array ⟨0⟩ ∈ heap.held (.array ⟨0⟩) := List.mem_cons_self
  -- The first array holds itself, which is what keeps it from being rendered plainly.
  have hcycle : Relation.TransGen heap.Holds (.array ⟨0⟩) (.array ⟨0⟩) := .single hholds
  refine ⟨by decide, hdisplay, (hdeeper 7 (by decide)).trans hdisplay, hshows,
    (hmark [] (.array ⟨0⟩) text hshows).1, ?_⟩
  intro hrenders
  exact ((hplain text).mp hrenders).1 _ ⟨.array ⟨0⟩, rfl, .refl⟩ hcycle

end DecimalScript
