import DecimalScript.Program.Basic
import Mathlib.Data.List.Basic

/-!
# Trees of spans

A program is a tree of spans (`Expr.tree`, `Stmt.tree` and so on): each construct has the spans of
its parts below it, in the order of the source. How such trees lie over tokens is an induction over
these (`Laid`): tokens with which no tree begins are passed over, and a tree takes some tokens in a
row, over which what is below it lies in turn.

- `Laid.enclose`: a span is put around trees in a row, from the start of the first to the end of the
  last, and some of them are left out below it. `Laid.around`: a span is put around all tokens.
- `Laid.exists_inner`: what is below a tree lies over tokens of that tree.
- `Laid.runsOver`, `Laid.nests`: where trees start and stop that lie over tokens in order.
-/

namespace DecimalScript

/-! ### Programs as trees of spans -/

/-- A span, and below it the spans of its parts, in the order of the source. -/
inductive SpanTree where
  | node (span : Span) (children : List SpanTree)

namespace SpanTree

/-- The span at the top. -/
def span : SpanTree → Span
  | node span _ => span

/-- What is right below the top. -/
def children : SpanTree → List SpanTree
  | node _ children => children

mutual

/-- A tree and all trees below it. -/
def nodes : SpanTree → List SpanTree
  | node span children => node span children :: nodesOf children

/-- Several trees and all trees below them. -/
def nodesOf : List SpanTree → List SpanTree
  | [] => []
  | tree :: trees => tree.nodes ++ nodesOf trees

end

end SpanTree

mutual

/-- The spans of an expression: callees before arguments, left before right. -/
def Expr.tree : Expr → SpanTree
  | .number span _ _ | .string span _ | .boolean span _ | .name span _ => .node span []
  | .lookup span target key => .node span [target.tree, key.tree]
  | .binary span _ left right => .node span [left.tree, right.tree]
  | .unary span _ operand => .node span [operand.tree]
  | .array span elements => .node span (exprTrees elements)
  | .dictionary span entries => .node span (entryTrees entries)
  | .function span parameters body => .node span (parameterTrees parameters ++ [body.tree])
  | .call span callee arguments => .node span (callee.tree :: exprTrees arguments)

/-- The spans of several expressions. -/
def exprTrees : List Expr → List SpanTree
  | [] => []
  | e :: es => e.tree :: exprTrees es

/-- The spans of an entry: the key before the value. -/
def Entry.tree : Entry → SpanTree
  | .mk key value => .node (key.span.upTo value.span) [key.tree, value.tree]

/-- The spans of several entries. -/
def entryTrees : List Entry → List SpanTree
  | [] => []
  | e :: es => e.tree :: entryTrees es

/-- The spans of a parameter and its default. -/
def Parameter.tree : Parameter → SpanTree
  | .mk span _ none => .node span []
  | .mk span _ (some default) => .node span [default.tree]

/-- The spans of several parameters. -/
def parameterTrees : List Parameter → List SpanTree
  | [] => []
  | p :: ps => p.tree :: parameterTrees ps

/-- The spans of a block. -/
def Block.tree : Block → SpanTree
  | .mk span statements => .node span (stmtTrees statements)

/-- The spans of a statement: targets before values, conditions before blocks. What is assigned to
or called is an expression with a span of its own. -/
def Stmt.tree : Stmt → SpanTree
  | .assignVariable span nameSpan _ value => .node span [.node nameSpan [], value.tree]
  | .assignElement span lookupSpan target key value =>
    .node span [.node lookupSpan [target.tree, key.tree], value.tree]
  | .call span callSpan callee arguments =>
    .node span [.node callSpan (callee.tree :: exprTrees arguments)]
  | .ret span value => .node span [value.tree]
  | .declareGlobal span _ => .node span []
  | .branch span condition body otherwise =>
    .node span (condition.tree :: body.tree :: otherwise.trees)
  | .loop span condition body => .node span [condition.tree, body.tree]
  | .each span source _ _ body => .node span [source.tree, body.tree]

/-- The spans of several statements. -/
def stmtTrees : List Stmt → List SpanTree
  | [] => []
  | s :: ss => s.tree :: stmtTrees ss

/-- The spans of what follows the block of a conditional, if anything. -/
def Otherwise.trees : Otherwise → List SpanTree
  | .nothing => []
  | .block block => [block.tree]
  | .branch span condition body otherwise =>
    [.node span (condition.tree :: body.tree :: otherwise.trees)]

end

/-- The spans of a program. -/
def Program.tree (program : Program) : SpanTree :=
  .node program.span (stmtTrees program.statements)

@[simp] theorem Expr.span_tree (e : Expr) : e.tree.span = e.span := by
  cases e <;> rfl

@[simp] theorem Block.span_tree (b : Block) : b.tree.span = b.span := by
  cases b
  rfl

@[simp] theorem Stmt.span_tree (s : Stmt) : s.tree.span = s.span := by
  cases s <;> rfl

/-! ### Spans over tokens -/

/-- The span of a single token. -/
def Token.leaf (token : Token) : SpanTree :=
  .node token.span []

namespace Span

/-- A span starts with the first of some tokens. -/
def StartsWith (span : Span) (tokens : List Token) : Prop :=
  ∃ first ∈ tokens.head?, span.file = first.span.file ∧ span.start = first.span.start

/-- A span stops with the last of some tokens. -/
def StopsWith (span : Span) (tokens : List Token) : Prop :=
  ∃ last ∈ tokens.getLast?, span.stop = last.span.stop

variable {span : Span} {tokens more : List Token}

theorem StartsWith.ne_nil (h : span.StartsWith tokens) : tokens ≠ [] := by
  rintro rfl
  obtain ⟨first, hfirst, -⟩ := h
  cases hfirst

theorem StartsWith.append (h : span.StartsWith tokens) (more : List Token) :
    span.StartsWith (tokens ++ more) := by
  obtain ⟨first, hfirst, hspan⟩ := h
  exact ⟨first, by rw [List.head?_append, hfirst]; rfl, hspan⟩

theorem StopsWith.append (h : span.StopsWith tokens) (before : List Token) :
    span.StopsWith (before ++ tokens) := by
  obtain ⟨last, hlast, hspan⟩ := h
  exact ⟨last, by rw [List.getLast?_append, hlast]; rfl, hspan⟩

theorem StopsWith.of_append {before : List Token} (h : span.StopsWith (before ++ tokens))
    (htokens : tokens ≠ []) : span.StopsWith tokens := by
  obtain ⟨last, hlast, hspan⟩ := h
  rw [List.getLast?_append_of_ne_nil _ htokens] at hlast
  exact ⟨last, hlast, hspan⟩

end Span

/-- Trees of spans lie over tokens, one after the other. -/
inductive Laid : List Token → List SpanTree → Prop
  | nil : Laid [] []
  /-- A token that no tree begins with. -/
  | skip (token : Token) {tokens : List Token} {trees : List SpanTree} (h : Laid tokens trees) :
    Laid (token :: tokens) trees
  /-- A tree over tokens in a row, from the first of which to the last of which its span reaches. -/
  | node {span : Span} {inner outer : List Token} {children trees : List SpanTree}
    (hstarts : span.StartsWith inner) (hstops : span.StopsWith inner)
    (hchildren : Laid inner children) (h : Laid outer trees) :
    Laid (inner ++ outer) (.node span children :: trees)

namespace Laid

variable {tokens : List Token} {trees : List SpanTree}

/-- Tokens in front are passed over. -/
theorem behind (before : List Token) (h : Laid tokens trees) : Laid (before ++ tokens) trees := by
  induction before with
  | nil => exact h
  | cons token before ih => exact .skip token ih

/-- Nothing lies over any tokens. -/
theorem nothing (tokens : List Token) : Laid tokens [] := by
  have h := nil.behind tokens
  rwa [List.append_nil] at h

theorem append {later : List Token} {others : List SpanTree} (h : Laid tokens trees)
    (hlater : Laid later others) : Laid (tokens ++ later) (trees ++ others) := by
  induction h with
  | nil => exact hlater
  | skip token _ ih => exact .skip token ih
  | node hstarts hstops hchildren _ _ ih =>
    rw [List.append_assoc]
    exact .node hstarts hstops hchildren ih

/-- Trees in a row share the tokens out. -/
theorem split {others : List SpanTree} (h : Laid tokens (trees ++ others)) :
    ∃ before later, tokens = before ++ later ∧ Laid before trees ∧ Laid later others := by
  generalize hall : trees ++ others = all at h
  induction h generalizing trees with
  | nil =>
    obtain ⟨rfl, rfl⟩ := List.append_eq_nil_iff.mp hall
    exact ⟨[], [], rfl, .nil, .nil⟩
  | skip token _ ih =>
    obtain ⟨before, later, rfl, hbefore, hlater⟩ := ih hall
    exact ⟨token :: before, later, rfl, .skip token hbefore, hlater⟩
  | @node span inner outer children rest hstarts hstops hchildren h _ ih =>
    -- The split lies before the first tree of `others`; the tokens skipped in front of it go to
    -- them.
    cases trees with
    | nil =>
      obtain rfl : others = .node span children :: rest := hall
      exact ⟨[], inner ++ outer, rfl, .nil, .node hstarts hstops hchildren h⟩
    | cons tree trees =>
      obtain ⟨rfl, hrest⟩ := List.cons.inj hall
      obtain ⟨before, later, rfl, hbefore, hlater⟩ := ih hrest
      refine ⟨inner ++ before, later, (List.append_assoc ..).symm, ?_, hlater⟩
      exact .node hstarts hstops hchildren hbefore

/-- Trees can be left out. -/
theorem sublist {kept : List SpanTree} (h : Laid tokens trees) (hkept : kept.Sublist trees) :
    Laid tokens kept := by
  -- A tree that is left out leaves its tokens to be passed over.
  induction h generalizing kept with
  | nil =>
    obtain rfl := List.sublist_nil.mp hkept
    exact .nil
  | skip token _ ih => exact .skip token (ih hkept)
  | @node _ inner _ _ _ hstarts hstops hchildren _ _ ih =>
    cases hkept with
    | cons _ hkept => exact (ih hkept).behind inner
    | cons_cons _ hkept => exact .node hstarts hstops hchildren (ih hkept)

/-- The first tree, such as the sign in front of an operand, can be left out. -/
theorem tail {first : SpanTree} (h : Laid tokens (first :: trees)) : Laid tokens trees :=
  h.sublist (List.sublist_cons_self first trees)

/-- The tokens before the first tree do not matter. -/
theorem trimStart {first : SpanTree} (h : Laid tokens (first :: trees)) :
    ∃ before inner, tokens = before ++ inner ∧ Laid inner (first :: trees) ∧
      first.span.StartsWith inner := by
  generalize hall : first :: trees = all at h
  induction h with
  | nil => cases hall
  | skip token _ ih =>
    obtain ⟨before, inner, rfl, hinner⟩ := ih hall
    exact ⟨token :: before, inner, rfl, hinner⟩
  | @node _ inner outer _ _ hstarts hstops hchildren h =>
    cases hall
    exact ⟨[], inner ++ outer, rfl, .node hstarts hstops hchildren h, hstarts.append outer⟩

/-- A tree is over a token at least. -/
theorem ne_nil {first : SpanTree} (h : Laid tokens (first :: trees)) : tokens ≠ [] := by
  obtain ⟨before, inner, rfl, -, hstarts⟩ := h.trimStart
  exact fun hnil => hstarts.ne_nil (List.append_eq_nil_iff.mp hnil).2

/-- The tokens behind the last tree do not matter. -/
theorem trimStop {last : SpanTree} (h : Laid tokens trees) (hlast : last ∈ trees.getLast?) :
    ∃ inner after, tokens = inner ++ after ∧ Laid inner trees ∧ last.span.StopsWith inner := by
  induction h with
  | nil => cases hlast
  | skip token _ ih =>
    obtain ⟨inner, after, rfl, hinner, hstops⟩ := ih hlast
    exact ⟨token :: inner, after, rfl, .skip token hinner, hstops.append [token]⟩
  | @node span inner outer children trees hstarts hstops hchildren h _ ih =>
    cases trees with
    | nil =>
      obtain rfl := Option.some.inj hlast
      refine ⟨inner, outer, rfl, ?_, hstops⟩
      have hnode := node hstarts hstops hchildren nil
      rwa [List.append_nil] at hnode
    | cons tree trees =>
      rw [List.getLast?_cons_cons] at hlast
      obtain ⟨more, after, rfl, hmore, hmoreStops⟩ := ih hlast
      refine ⟨inner ++ more, after, (List.append_assoc ..).symm, ?_, hmoreStops.append inner⟩
      exact .node hstarts hstops hchildren hmore

/-- **A span around spans in a row.** Some of them can be left out below it. -/
theorem enclose (first last : SpanTree) {row children others : List SpanTree}
    (h : Laid tokens (row ++ others)) (hfirst : first ∈ row.head?) (hlast : last ∈ row.getLast?)
    (hchildren : children.Sublist row) :
    Laid tokens (.node (first.span.upTo last.span) children :: others) := by
  obtain ⟨front, later, rfl, hrow, hothers⟩ := h.split
  -- Tokens behind the last span of the row and in front of the first one are passed over.
  obtain ⟨inner, after, rfl, hinner, hstops⟩ := hrow.trimStop hlast
  cases row with
  | nil => cases hfirst
  | cons tree row =>
    obtain rfl := Option.some.inj hfirst
    obtain ⟨before, inner, rfl, hinner, hstarts⟩ := hinner.trimStart
    have hall : Laid (inner ++ (after ++ later))
        (.node (tree.span.upTo last.span) children :: others) :=
      .node hstarts (hstops.of_append hstarts.ne_nil) (hinner.sublist hchildren)
        (hothers.behind after)
    have hbefore := hall.behind before
    simpa only [List.append_assoc] using hbefore

/-- A span around all spans in a row. -/
theorem encloseAll (first last : SpanTree) {children : List SpanTree} (h : Laid tokens trees)
    (hfirst : first ∈ trees.head?) (hlast : last ∈ trees.getLast?)
    (hchildren : children.Sublist trees) :
    Laid tokens [.node (first.span.upTo last.span) children] := by
  rw [← List.append_nil trees] at h
  exact h.enclose first last hfirst hlast hchildren

/-- A span around all tokens. -/
theorem around {span : Span} (h : Laid tokens trees) (hstarts : span.StartsWith tokens)
    (hstops : span.StopsWith tokens) : Laid tokens [.node span trees] := by
  have hnode := node hstarts hstops h nil
  rwa [List.append_nil] at hnode

/-- A token is a span of its own. -/
theorem leaf (token : Token) : Laid [token] [token.leaf] :=
  (nothing [token]).around ⟨token, rfl, rfl, rfl⟩ ⟨token, rfl, rfl⟩

end Laid

/-! ### Spans over tokens in order -/

/-- Tokens that are not empty and follow each other. -/
structure InOrder (tokens : List Token) : Prop where
  proper : ∀ token ∈ tokens, token.span.start.offset < token.span.stop.offset
  pairwise : tokens.Pairwise fun a b => a.span.stop.offset ≤ b.span.start.offset

/-- Tokens in order stay so when some are left out. -/
theorem InOrder.sublist {tokens inner : List Token} (h : InOrder tokens)
    (hinner : inner.Sublist tokens) : InOrder inner :=
  ⟨fun token htoken => h.proper token (hinner.subset htoken), h.pairwise.sublist hinner⟩

namespace Span

variable {span : Span} {tokens : List Token}

/-- A span that starts with the first token starts no later than any of them. -/
theorem StartsWith.le (h : span.StartsWith tokens) (horder : InOrder tokens) :
    ∀ token ∈ tokens, span.start.offset ≤ token.span.start.offset := by
  obtain ⟨first, hfirst, -, hstart⟩ := h
  obtain ⟨rest, rfl⟩ := List.head?_eq_some_iff.mp hfirst
  rw [hstart]
  refine List.forall_mem_cons.mpr ⟨Nat.le_refl _, fun token htoken => ?_⟩
  have hproper := horder.proper first (List.mem_cons_self ..)
  have hle := (List.pairwise_cons.mp horder.pairwise).1 token htoken
  omega

/-- A span that stops with the last token stops no earlier than any of them. -/
theorem StopsWith.le (h : span.StopsWith tokens) (horder : InOrder tokens) :
    ∀ token ∈ tokens, token.span.stop.offset ≤ span.stop.offset := by
  obtain ⟨last, hlast, hstop⟩ := h
  obtain ⟨front, rfl⟩ := List.getLast?_eq_some_iff.mp hlast
  rw [hstop]
  intro token htoken
  rcases List.mem_append.mp htoken with hfront | hself
  · have hproper := horder.proper last (List.mem_append_right _ (List.mem_singleton_self last))
    have hle := (List.pairwise_append.mp horder.pairwise).2.2 token hfront last
      (List.mem_singleton_self last)
    omega
  · exact List.mem_singleton.mp hself ▸ Nat.le_refl _

theorem StartsWith.exists_mem (h : span.StartsWith tokens) :
    ∃ first ∈ tokens, span.file = first.span.file ∧ span.start = first.span.start := by
  obtain ⟨first, hfirst, hspan⟩ := h
  exact ⟨first, List.mem_of_mem_head? hfirst, hspan⟩

theorem StopsWith.exists_mem (h : span.StopsWith tokens) :
    ∃ last ∈ tokens, span.stop = last.span.stop := by
  obtain ⟨last, hlast, hspan⟩ := h
  exact ⟨last, List.mem_of_getLast? hlast, hspan⟩

end Span

namespace Laid

variable {tokens : List Token} {trees : List SpanTree}

/-- Each tree, at the top or below, lies over tokens in a row, and what is right below it lies over
the same ones. -/
theorem exists_inner (h : Laid tokens trees) : ∀ node ∈ SpanTree.nodesOf trees,
    ∃ before inner after, tokens = before ++ (inner ++ after) ∧
      node.span.StartsWith inner ∧ node.span.StopsWith inner ∧ Laid inner node.children := by
  induction h with
  | nil => exact nofun
  | skip token _ ih =>
    intro node hnode
    obtain ⟨before, inner, after, rfl, hinner⟩ := ih node hnode
    exact ⟨token :: before, inner, after, rfl, hinner⟩
  | @node span inner outer children trees hstarts hstops hchildren _ ihchildren ih =>
    intro node hnode
    rcases List.mem_append.mp hnode with htop | hlater
    · rcases List.mem_cons.mp htop with rfl | hbelow
      · exact ⟨[], inner, outer, rfl, hstarts, hstops, hchildren⟩
      · obtain ⟨before, middle, after, rfl, hmiddle⟩ := ihchildren node hbelow
        exact ⟨before, middle, after ++ outer, by simp, hmiddle⟩
    · obtain ⟨before, middle, after, rfl, hmiddle⟩ := ih node hlater
      exact ⟨inner ++ before, middle, after, by simp, hmiddle⟩

end Laid

theorem SpanTree.mem_nodesOf {tree : SpanTree} {trees : List SpanTree} (h : tree ∈ trees) :
    tree ∈ nodesOf trees := by
  induction trees with
  | nil => cases h
  | cons first trees ih =>
    rcases List.mem_cons.mp h with rfl | h
    · refine List.mem_append_left _ ?_
      cases tree
      exact List.mem_cons_self ..
    · exact List.mem_append_right _ (ih h)

namespace Laid

variable {tokens : List Token} {trees : List SpanTree}

/-- A tree starts where some token does and stops where some token does. -/
theorem exists_ends (h : Laid tokens trees) {tree : SpanTree} (htree : tree ∈ trees) :
    (∃ first ∈ tokens, tree.span.start = first.span.start) ∧
      ∃ last ∈ tokens, tree.span.stop = last.span.stop := by
  obtain ⟨before, inner, after, rfl, hstarts, hstops, -⟩ :=
    h.exists_inner tree (SpanTree.mem_nodesOf htree)
  have hsubset : ∀ token ∈ inner, token ∈ before ++ (inner ++ after) := fun token htoken =>
    List.mem_append_right _ (List.mem_append_left _ htoken)
  obtain ⟨first, hfirst, -, hstart⟩ := hstarts.exists_mem
  obtain ⟨last, hlast, hstop⟩ := hstops.exists_mem
  exact ⟨⟨first, hsubset first hfirst, hstart⟩, last, hsubset last hlast, hstop⟩

/-- Trees over tokens in order follow each other. -/
theorem pairwise (h : Laid tokens trees) (horder : InOrder tokens) :
    trees.Pairwise fun a b => a.span.stop.offset ≤ b.span.start.offset := by
  induction h with
  | nil => exact .nil
  | skip token _ ih => exact ih (horder.sublist (List.sublist_cons_self ..))
  | @node span inner outer children trees hstarts hstops hchildren h _ ih =>
    refine .cons (fun tree htree => ?_) (ih (horder.sublist (List.sublist_append_right ..)))
    obtain ⟨last, hlast, hstop⟩ := hstops.exists_mem
    obtain ⟨⟨first, hfirst, hstart⟩, -⟩ := h.exists_ends htree
    show span.stop.offset ≤ tree.span.start.offset
    rw [hstop, hstart]
    exact (List.pairwise_append.mp horder.pairwise).2.2 last hlast first hfirst

end Laid

/-- A span of a file that is not empty and runs from the start of a token to the end of the same or
a later one. -/
def Span.RunsOver (span : Span) (file : Option String) (tokens : List Token) : Prop :=
  ∃ (i j : Nat) (first last : Token), i ≤ j ∧ tokens[i]? = some first ∧ tokens[j]? = some last ∧
    span = ⟨file, first.span.start, last.span.stop⟩ ∧ span.start.offset < span.stop.offset

/-- What is right below a span is within it and in order. -/
structure SpanTree.Nests (tree : SpanTree) : Prop where
  within : ∀ child ∈ tree.children, tree.span.start.offset ≤ child.span.start.offset ∧
    child.span.stop.offset ≤ tree.span.stop.offset
  pairwise : tree.children.Pairwise fun a b => a.span.stop.offset ≤ b.span.start.offset

namespace Laid

variable {tokens : List Token} {trees : List SpanTree}

/-- Trees over tokens in order nest. -/
theorem nests (h : Laid tokens trees) (horder : InOrder tokens) :
    ∀ node ∈ SpanTree.nodesOf trees, node.Nests := by
  intro node hnode
  obtain ⟨before, inner, after, rfl, hstarts, hstops, hchildren⟩ := h.exists_inner node hnode
  have hinner : InOrder inner := horder.sublist
    ((List.sublist_append_left ..).trans (List.sublist_append_right ..))
  refine ⟨fun child hchild => ?_, hchildren.pairwise hinner⟩
  obtain ⟨⟨first, hfirst, hstart⟩, last, hlast, hstop⟩ := hchildren.exists_ends hchild
  rw [hstart, hstop]
  exact ⟨hstarts.le hinner first hfirst, hstops.le hinner last hlast⟩

/-- Trees over tokens in order run over them. -/
theorem runsOver {file : Option String} (h : Laid tokens trees) (horder : InOrder tokens)
    (hfile : ∀ token ∈ tokens, token.span.file = file) :
    ∀ node ∈ SpanTree.nodesOf trees, node.span.RunsOver file tokens := by
  intro node hnode
  obtain ⟨before, inner, after, rfl, hstarts, hstops, -⟩ := h.exists_inner node hnode
  -- Tokens in a row of an ordered list are in order as well.
  have hinner : InOrder inner := horder.sublist
    ((List.sublist_append_left ..).trans (List.sublist_append_right ..))
  have hstopsLast := hstops.le hinner
  obtain ⟨first, hfirst, hfirstFile, hstart⟩ := hstarts
  obtain ⟨last, hlast, hstop⟩ := hstops
  have hmem : first ∈ inner := List.mem_of_mem_head? hfirst
  have hpos : 0 < inner.length := List.length_pos_of_mem hmem
  refine ⟨before.length, before.length + (inner.length - 1), first, last, Nat.le_add_right ..,
    ?_, ?_, ?_, ?_⟩
  · rw [List.getElem?_append_right (Nat.le_refl _), Nat.sub_self, List.getElem?_append_left hpos,
      ← List.head?_eq_getElem?]
    exact hfirst
  · rw [List.getElem?_append_right (Nat.le_add_right ..), Nat.add_sub_cancel_left,
      List.getElem?_append_left (by omega), ← List.getLast?_eq_getElem?]
    exact hlast
  · have hspanFile : node.span.file = file :=
      hfirstFile.trans (hfile first (List.mem_append_right _ (List.mem_append_left _ hmem)))
    rw [← hspanFile, ← hstart, ← hstop]
  · have hproper := hinner.proper first hmem
    have hle := hstopsLast first hmem
    rw [hstart]
    omega

end Laid

end DecimalScript
