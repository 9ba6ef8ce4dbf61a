import DecimalScript.Config.Basic
import DecimalScript.Proofs.FreeNames
import DecimalScript.Proofs.NumberSpellings

/-!
# Configurations of documents

A mapping gives a configuration exactly if every key is known and the last setting of each one means
something for it; keys that are left out have their defaults. The configuration is then all that the
mapping says, so it is made again from a mapping of its own. Any other document is refused, unless
it says nothing.

- `Config.Says`: what settings say under a key.
- `Config.ofMapping_eq_ok_iff`: the configurations of mappings, and of no others.
- `Document.read_silent`: a text without a line that says something is null.
- `configurations_fail_closed_unless_void`: what becomes of every document.
-/

namespace DecimalScript

/-- Levels are known by their names. -/
theorem LogLevel.ofName?_eq_some_iff {name : String} {level : LogLevel} :
    ofName? name = some level ↔ level.name = name := by
  constructor
  · intro h
    unfold ofName? at h
    have hname := List.find?_some h
    exact eq_of_beq hname
  · rintro rfl
    cases level <;> decide

namespace Config

/-! ### What settings say -/

/-- What settings say under a key, given what a single setting means there: their last setting of
the key means it, or they leave the key out and it is the default. -/
inductive Says {α : Type} (settings : List (String × Setting)) (key : String)
    (means : Setting → α → Prop) (default : α) : α → Prop
  | absent (habsent : ∀ entry ∈ settings, entry.1 ≠ key) : Says settings key means default default
  | last {before behind : List (String × Setting)} {setting : Setting} {value : α}
    (hsettings : settings = before ++ (key, setting) :: behind)
    (hlast : ∀ entry ∈ behind, entry.1 ≠ key) (hmeans : means setting value) :
    Says settings key means default value

/-- A limit is a positive integer. -/
def IsLimit (setting : Setting) (limit : Nat) : Prop :=
  setting = .integer limit ∧ 0 < limit

/-- A log level is a text that is its name in upper case. -/
def IsLevel (setting : Setting) (level : LogLevel) : Prop :=
  Text.uppercase setting.plainText = level.name

/-- A configuration is what settings say, and they say nothing else. -/
structure Follows (config : Config) (settings : List (String × Setting)) : Prop where
  known : ∀ entry ∈ settings, entry.1 ∈ knownKeys
  maxExponent : Says settings "max_exponent" IsLimit 99999 config.maxExponent
  maxCallDepth : Says settings "max_call_depth" IsLimit 200 config.maxCallDepth
  logLevel : Says settings "log_level" IsLevel .warning config.logLevel
  loadBuiltins : Says settings "load_builtins" (fun setting b => setting = .boolean b) true
    config.loadBuiltins

section Keys

variable {α : Type} {settings : List (String × Setting)} {key : String}

theorem setting?_eq_none_iff :
    setting? settings key = none ↔ ∀ entry ∈ settings, entry.1 ≠ key := by
  unfold setting?
  rw [List.lookup_eq_none_iff]
  simp only [List.mem_reverse, bne_iff_ne, ne_comm]

/-- The setting of a key is the last one. -/
theorem setting?_eq_some_iff {setting : Setting} :
    setting? settings key = some setting ↔ ∃ before behind,
      settings = before ++ (key, setting) :: behind ∧ ∀ entry ∈ behind, entry.1 ≠ key := by
  unfold setting?
  rw [List.lookup_eq_some_iff]
  constructor
  · rintro ⟨behind, before, hreverse, hlast⟩
    refine ⟨before.reverse, behind.reverse, ?_, fun entry hentry => ?_⟩
    · rw [← List.reverse_reverse settings, hreverse]
      simp
    · exact (bne_iff_ne.mp (hlast entry (List.mem_reverse.mp hentry))).symm
  · rintro ⟨before, behind, rfl, hlast⟩
    refine ⟨behind.reverse, before.reverse, by simp, fun entry hentry => ?_⟩
    exact bne_iff_ne.mpr (hlast entry (List.mem_reverse.mp hentry)).symm

/-- A key that is read with a default says what its setting means. -/
theorem says_iff {means : Setting → α → Prop} {default value : α} :
    Says settings key means default value ↔
      match setting? settings key with
      | none => value = default
      | some setting => means setting value := by
  constructor
  · rintro (habsent | ⟨hsettings, hlast, hmeans⟩)
    · rw [setting?_eq_none_iff.mpr habsent]
    · rw [setting?_eq_some_iff.mpr ⟨_, _, hsettings, hlast⟩]
      exact hmeans
  · intro h
    cases hsetting : setting? settings key with
    | none =>
      rw [hsetting] at h
      rw [h]
      exact .absent (setting?_eq_none_iff.mp hsetting)
    | some setting =>
      rw [hsetting] at h
      obtain ⟨before, behind, hsettings, hlast⟩ := setting?_eq_some_iff.mp hsetting
      exact .last hsettings hlast h

/-- A limit is read just when the settings say it. -/
theorem limit_eq_ok_iff {default n : Nat} :
    limit settings key default = .ok n ↔ Says settings key IsLimit default n := by
  rw [says_iff]
  unfold limit IsLimit
  cases setting? settings key with
  | none => exact ⟨fun h => (Except.ok.inj h).symm, fun h => congrArg _ h.symm⟩
  | some setting =>
    cases setting with
    | integer k =>
      by_cases hpos : 0 < k
      · simp only [hpos, if_true, Except.ok.injEq, Setting.integer.injEq]
        omega
      · simp only [hpos, if_false, reduceCtorEq, Setting.integer.injEq, false_iff]
        omega
    | _ => simp

theorem level_eq_ok_iff {default level : LogLevel} :
    Config.level settings default = .ok level ↔ Says settings "log_level" IsLevel default level := by
  rw [says_iff]
  unfold Config.level IsLevel
  cases setting? settings "log_level" with
  | none => exact ⟨fun h => (Except.ok.inj h).symm, fun h => congrArg _ h.symm⟩
  | some setting =>
    simp only [eq_comm (b := level.name), ← LogLevel.ofName?_eq_some_iff]
    cases LogLevel.ofName? (Text.uppercase setting.plainText) <;> simp

theorem builtins_eq_ok_iff {default b : Bool} :
    builtins settings default = .ok b ↔
      Says settings "load_builtins" (fun setting b => setting = .boolean b) default b := by
  rw [says_iff]
  unfold builtins
  cases setting? settings "load_builtins" with
  | none => exact ⟨fun h => (Except.ok.inj h).symm, fun h => congrArg _ h.symm⟩
  | some setting => cases setting <;> simp

end Keys

/-! ### Mappings -/

/-- Keys that are not known are found. -/
theorem unknown_isEmpty_iff {settings : List (String × Setting)} :
    (Names.ofList ((settings.map (·.1)).filter fun key => !knownKeys.contains key)).isEmpty = true ↔
      ∀ entry ∈ settings, entry.1 ∈ knownKeys := by
  rw [List.isEmpty_iff, List.eq_nil_iff_forall_not_mem]
  simp only [Names.mem_ofList, List.mem_filter, List.mem_map, Bool.not_eq_true',
    ← Bool.not_eq_true, List.contains_iff_mem, not_and, not_not]
  constructor
  · exact fun h entry hentry => h _ ⟨entry, hentry, rfl⟩
  · rintro h _ ⟨entry, hentry, rfl⟩
    exact h entry hentry

theorem bind_eq_ok_iff {ε α β : Type} {x : Except ε α} {f : α → Except ε β} {b : β} :
    x >>= f = .ok b ↔ ∃ a, x = .ok a ∧ f a = .ok b := by
  cases x <;> simp [bind, Except.bind]

/-- **A mapping gives the configuration that it says, and no other.** -/
theorem ofMapping_eq_ok_iff {settings : List (String × Setting)} {config : Config} :
    ofMapping settings = .ok config ↔ config.Follows settings := by
  unfold ofMapping
  dsimp only
  by_cases hknown : ∀ entry ∈ settings, entry.1 ∈ knownKeys
  · rw [if_neg (by rw [unknown_isEmpty_iff.mpr hknown]; decide)]
    simp only [bind_eq_ok_iff, limit_eq_ok_iff, level_eq_ok_iff, builtins_eq_ok_iff]
    constructor
    · rintro ⟨n, hn, depth, hdepth, level, hlevel, b, hb, hconfig⟩
      cases hconfig
      exact ⟨hknown, hn, hdepth, hlevel, hb⟩
    · intro h
      exact ⟨_, h.maxExponent, _, h.maxCallDepth, _, h.logLevel, _, h.loadBuiltins, rfl⟩
  · rw [if_pos (by rwa [Bool.not_eq_true', ← Bool.not_eq_true, unknown_isEmpty_iff])]
    exact iff_of_false nofun fun h => hknown h.known

theorem Says.pos {settings : List (String × Setting)} {key : String} {default n : Nat}
    (h : Says settings key IsLimit default n) (hdefault : 0 < default) : 0 < n := by
  cases h with
  | absent => exact hdefault
  | last _ _ hlimit => exact hlimit.2

/-- A configuration with positive limits is what its own mapping says. -/
theorem follows_toMapping {config : Config} (hexponent : 0 < config.maxExponent)
    (hdepth : 0 < config.maxCallDepth) : config.Follows config.toMapping where
  known := by simp [toMapping, knownKeys]
  maxExponent := says_iff.mpr ⟨rfl, hexponent⟩
  maxCallDepth := says_iff.mpr ⟨rfl, hdepth⟩
  logLevel := by
    refine says_iff.mpr ?_
    show Text.uppercase config.logLevel.name = config.logLevel.name
    cases config.logLevel <;> decide +kernel
  loadBuiltins := says_iff.mpr rfl

/-- A configuration of a mapping is made again from its own mapping. -/
theorem Follows.ofMapping_toMapping {settings : List (String × Setting)} {config : Config}
    (h : config.Follows settings) : ofMapping config.toMapping = .ok config :=
  ofMapping_eq_ok_iff.mpr
    (follows_toMapping (h.maxExponent.pos (by decide)) (h.maxCallDepth.pos (by decide)))

/-! ### Documents -/

/-- An entry whose key is a text. -/
def keyed (entry : String × Setting) : Setting × Setting :=
  (.text entry.1, entry.2)

/-- Entries are settings under keys if every key is a text. -/
theorem mapM_textEntry?_eq_some_iff {entries : List (Setting × Setting)}
    {settings : List (String × Setting)} :
    entries.mapM textEntry? = some settings ↔ entries = settings.map keyed := by
  have hkeyed : ∀ {entry : Setting × Setting} {setting : String × Setting},
      textEntry? entry = some setting ↔ entry = keyed setting := by
    rintro ⟨key, value⟩ ⟨name, setting⟩
    cases key <;> simp [ textEntry?, keyed]
  rw [mapM_eq_some_iff]
  constructor
  · intro h
    induction h with
    | nil => rfl
    | cons hentry _ ih => rw [hkeyed.mp hentry, ih, List.map_cons]
  · rintro rfl
    induction settings with
    | nil => exact .nil
    | cons setting settings ih => exact .cons (hkeyed.mpr rfl) ih

/-- A mapping is settings under keys, and gives the configuration that these say. -/
theorem ofDocument_mapping_eq_ok_iff {entries : List (Setting × Setting)} {config : Config} :
    ofDocument (.mapping entries) = .ok config ↔
      ∃ settings, entries = settings.map keyed ∧ config.Follows settings := by
  have hmapM : (∃ settings, entries.mapM textEntry? = some settings ∧ ofMapping settings = .ok config) ↔
      ∃ settings, entries = settings.map keyed ∧ config.Follows settings := by
    simp only [mapM_textEntry?_eq_some_iff, ofMapping_eq_ok_iff]
  rw [← hmapM]
  cases entries with
  | nil =>
    -- A mapping without entries says nothing, and leaves every key out.
    have hdefaults : ofMapping [] = .ok {} := rfl
    show Except.ok ({} : Config) = .ok config ↔ _
    simp [hdefaults]
  | cons entry entries =>
    unfold ofDocument
    rw [if_neg (show ¬ (Setting.mapping (entry :: entries)).isVoid = true from Bool.false_ne_true)]
    dsimp only
    cases (entry :: entries).mapM textEntry? <;> simp

theorem ofDocument_other {document : Setting} (h : ∀ entries, document ≠ .mapping entries) :
    ofDocument document = if document.isVoid then .ok {} else .error (.notAMapping document) := by
  unfold ofDocument
  split
  · rfl
  · cases document with
    | mapping entries => exact absurd rfl (h entries)
    | _ => rfl

end Config

namespace Document

/-! ### Texts that are read -/

/-- A text is read as the setting of its node, if it is one document. -/
theorem read_of_node {text : String} {lines : List Line} {node : Node} {setting : Setting}
    (hallowed : ∀ c ∈ text.toList, isAllowed c = true) (hlines : Document.lines text.toList = lines)
    (hinner : ∀ line ∈ lines, line.isBoundary = false)
    (hnode : nodeOf (text.length + 1) lines = .ok node) (hsetting : node.setting = .ok setting) :
    read text = .ok setting := by
  unfold read
  have hopen : (!text.toList.all isAllowed) = false := by
    rw [List.all_eq_true.mpr hallowed]
    rfl
  have hone : lines.any Line.isBoundary = false := by
    simpa using hinner
  simp only [hopen, hlines, hone, hnode, Bool.false_eq_true, if_false]
  show (node.setting).mapError _ = _
  rw [hsetting]
  rfl

/-! ### Texts that say nothing -/

/-- A row that says nothing: blanks, and perhaps a comment behind them. -/
def IsSilent (row : List Char) : Prop :=
  ∀ c ∈ (row.dropWhile (· == ' ')).head?, c = '#'

theorem linesOf_silent {rows : List (List Char)} (h : ∀ row ∈ rows, IsSilent row) (gap : Nat)
    (apart : Bool) : linesOf gap apart rows = [] := by
  induction rows generalizing gap apart with
  | nil => rfl
  | cons row rows ih =>
    obtain ⟨hrow, hrows⟩ := List.forall_mem_cons.mp h
    unfold IsSilent at hrow
    unfold linesOf
    dsimp only
    cases hhead : (row.dropWhile (· == ' ')).head? with
    | none => exact ih hrows _ _
    | some c =>
      obtain rfl := hrow c hhead
      exact ih hrows _ _

/-- The mark of the byte order does not end a row, and says something. -/
theorem head?_ne_mark_of_silent {text : List Char} (h : ∀ row ∈ rows text, IsSilent row) :
    text.head? ≠ some '\uFEFF' := by
  intro hhead
  obtain ⟨rest, rfl⟩ := List.head?_eq_some_iff.mp hhead
  have hmark : ∃ row later, rows ('\uFEFF' :: rest) = ('\uFEFF' :: row) :: later := by
    unfold rows
    cases rows rest with
    | nil => exact ⟨[], [], rfl⟩
    | cons row later => exact ⟨row, later, if_neg (by decide)⟩
  obtain ⟨row, later, hrows⟩ := hmark
  have hsilent := h ('\uFEFF' :: row) (hrows ▸ List.mem_cons_self)
  exact absurd (hsilent '\uFEFF' rfl) (by decide)

/-- A text without a line that says something is null. -/
theorem read_silent {text : String} (hallowed : ∀ c ∈ text.toList, isAllowed c = true)
    (hsilent : ∀ row ∈ rows (Text.unifyNewlines text.toList), IsSilent row) :
    read text = .ok .null := by
  have hlines : lines text.toList = [] := by
    unfold lines
    dsimp only
    rw [if_neg (head?_ne_mark_of_silent hsilent), linesOf_silent hsilent]
    rfl
  exact read_of_node hallowed hlines nofun (show _ = Except.ok (Node.value (.plain [])) from rfl) rfl

end Document

open Config in
/-- **Configurations fail closed, unless the document is void.** A text whose lines are blank or
comments is read as null, and null gives the defaults. A mapping gives a configuration exactly if it
has no keys but known ones and the last setting of each means something for its key: a positive
integer for a limit, a text that is the name of a level in upper case, a truth value for the
built-in functions. Keys that are left out have their defaults, and the mapping of the configuration
gives the configuration again. Any other document is refused if it says something; false, zero, and
an empty text or list give the defaults, as null does. -/
theorem configurations_fail_closed_unless_void (text : String) :
    ((∀ c ∈ text.toList, Document.isAllowed c = true) →
      (∀ row ∈ Document.rows (Text.unifyNewlines text.toList), Document.IsSilent row) →
      Document.read text = .ok .null) ∧
    ∀ document, Document.read text = .ok document →
      (document = .null → ofText text = .ok {}) ∧
      (∀ entries, document = .mapping entries → ∀ config,
        (ofText text = .ok config ↔
          ∃ settings, entries = settings.map keyed ∧ config.Follows settings) ∧
        (ofText text = .ok config → ofMapping config.toMapping = .ok config)) ∧
      (document ≠ .null → (∀ entries, document ≠ .mapping entries) →
        ofText text = if document.isVoid then .ok {} else .error (.notAMapping document)) := by
  refine ⟨Document.read_silent, fun document hread => ?_⟩
  have hdocument : ofText text = ofDocument document := by
    unfold ofText
    rw [hread]
  rw [hdocument]
  refine ⟨?_, ?_, fun _ => ofDocument_other⟩
  · rintro rfl
    rfl
  · rintro entries rfl config
    refine ⟨ofDocument_mapping_eq_ok_iff, fun hok => ?_⟩
    obtain ⟨settings, -, hfollows⟩ := ofDocument_mapping_eq_ok_iff.mp hok
    exact hfollows.ofMapping_toMapping

open Config in
/-- A comment above a blank line, a mapping, and a list. -/
theorem configurations_fail_closed_unless_void_thrice :
    let config : Config := { logLevel := .info }
    ofText "# none\n \n" = .ok {} ∧
      (ofText "log_level: Info" = .ok config ∧ ofMapping config.toMapping = .ok config) ∧
      ofText "- 1" = .error (.notAMapping (.list [.integer 1])) := by
  intro config
  have hsilent : Document.read "# none\n \n" = .ok .null := by
    have hrows : Document.rows (Text.unifyNewlines "# none\n \n".toList) =
        ["# none".toList, [' '], []] := by
      decide +kernel
    refine (configurations_fail_closed_unless_void _).1 (List.all_eq_true.mp (by decide)) ?_
    rw [hrows]
    simp [Document.IsSilent]
  have hmapping : Document.read "log_level: Info" =
      .ok (.mapping [keyed ("log_level", .text "Info")]) :=
    Document.read_of_node (List.all_eq_true.mp (by decide))
      (show _ = [⟨0, "log_level: Info".toList, 0, false, false⟩] from rfl) (by decide)
      (show _ = Except.ok (Document.Node.mapping
        [(.plain "log_level".toList, .value (.plain "Info".toList))]) from rfl)
      rfl
  have hlist : Document.read "- 1" = .ok (.list [.integer 1]) :=
    Document.read_of_node (List.all_eq_true.mp (by decide))
      (show _ = [⟨0, "- 1".toList, 0, false, false⟩] from rfl) (by decide)
      (show _ = Except.ok (Document.Node.list [.value (.plain ['1'])]) from rfl) rfl
  have hlevel : IsLevel (.text "Info") .info := by
    unfold IsLevel
    decide +kernel
  have hfollows : config.Follows [("log_level", .text "Info")] :=
    ⟨by decide, .absent (by decide), .absent (by decide),
      .last (show _ = [] ++ _ :: [] from rfl) nofun hlevel, .absent (by decide)⟩
  obtain ⟨hread, hagain⟩ := ((configurations_fail_closed_unless_void _).2 _ hmapping).2.1 _ rfl config
  have hok := hread.mpr ⟨_, rfl, hfollows⟩
  refine ⟨((configurations_fail_closed_unless_void _).2 _ hsilent).1 rfl, ⟨hok, hagain hok⟩, ?_⟩
  exact ((configurations_fail_closed_unless_void _).2 _ hlist).2.2 nofun nofun

open Config in
/-- An empty list is no mapping, and not null; it gives the defaults all the same. -/
theorem void_list_gives_defaults :
    Document.read "[]" = .ok (.list []) ∧ ofText "[]" = .ok {} ∧
      ofText "[]" ≠ .error (.notAMapping (.list [])) := by
  have hread : Document.read "[]" = .ok (.list []) :=
    Document.read_of_node (List.all_eq_true.mp (by decide))
      (show _ = [⟨0, "[]".toList, 0, false, false⟩] from rfl) (by decide)
      (show _ = Except.ok (Document.Node.value .emptyList) from rfl) rfl
  have hok : ofText "[]" = .ok {} := by
    unfold ofText
    rw [hread]
    rfl
  refine ⟨hread, hok, ?_⟩
  rw [hok]
  exact fun h => by cases h

end DecimalScript
