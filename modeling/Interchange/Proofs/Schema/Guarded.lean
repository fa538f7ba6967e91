import Interchange.Proofs.Schema.DependencyOrder

/-!
# Accesses that have to succeed

On the way from texts to a project many things are looked up that have to be there: the symbol of a
character, the next token, the declaration with a full name. A guarded phase makes each of these
accesses explicit. One that fails stops the run at a defect, which is no error of a schema. This
module guards the phases up to the order of declarations, and shows that they do not stop.

* `Defect`, `Guarded`: accesses that have to succeed, and runs that stop where one does not.
* `guardedParseFiles_eq`: from texts to syntax trees.
* `guardedSort_eq`: dependency order.
-/

namespace Interchange.Schema

/-! ## Defects -/

/-- An access that has to succeed and does not. -/
inductive Defect where
  /-- A character of the class of symbols is no symbol. -/
  | symbol
  /-- There is no token at a position. -/
  | token
  /-- A declaration has no mark in the walk through dependencies. -/
  | mark
  /-- There is no declaration with a full name. -/
  | declaration
  /-- A model is needed before it is built. -/
  | dependency
  /-- A template has no parameter at a position. -/
  | parameter
  /-- A template has no flag for a parameter. -/
  | flag
  /-- A built-in type has no place. -/
  | builtin
  /-- A place or a number is out of bounds. -/
  | bounds
  /-- A place is reserved and not filled yet. -/
  | absent
  /-- A place is still not filled at the end. -/
  | unfilled
deriving DecidableEq, Repr

/-- Runs that succeed or fail, unless they stop at a defect. -/
abbrev Guarded (ε : Type) : Type → Type :=
  ExceptT ε (Except Defect)

namespace Guarded

variable {ε ε' α β : Type}

/-- A run without a defect. -/
def clean (x : Except ε α) : Guarded ε α :=
  ExceptT.mk (.ok x)

/-- A run that stops. -/
def stop (defect : Defect) : Guarded ε α :=
  ExceptT.mk (.error defect)

/-- An access that has to succeed. -/
def demand (defect : Defect) : Option α → Guarded ε α
  | some a => pure a
  | none => stop defect

/-- Other errors for the same run. -/
def mapError (f : ε → ε') (x : Guarded ε α) : Guarded ε' α :=
  ExceptT.mk (x.run.map (Except.mapError f))

theorem clean_bind (x : Except ε α) (f : α → Except ε β) :
    clean (x >>= f) = clean x >>= fun a => clean (f a) := by
  cases x <;> rfl

theorem demand_some {defect : Defect} {found : Option α} {a : α} (hFound : found = some a) :
    demand defect found = (pure a : Guarded ε α) := by
  rw [hFound, demand]

theorem clean_foldlM {f : β → α → Guarded ε β} {g : β → α → Except ε β} {xs : List α}
    (hEach : ∀ x ∈ xs, ∀ b, f b x = clean (g b x)) (b : β) :
    xs.foldlM f b = clean (xs.foldlM g b) := by
  induction xs generalizing b with
  | nil => rfl
  | cons x xs ih =>
    obtain ⟨hFirst, hRest⟩ := List.forall_mem_cons.1 hEach
    rw [List.foldlM_cons, List.foldlM_cons, clean_bind, hFirst b]
    exact bind_congr fun next => ih hRest next

theorem mapM_pure {f : α → Guarded ε β} {g : α → β} {xs : List α}
    (hEach : ∀ x ∈ xs, f x = pure (g x)) : xs.mapM f = pure (xs.map g) := by
  induction xs with
  | nil => rfl
  | cons x xs ih =>
    obtain ⟨hFirst, hRest⟩ := List.forall_mem_cons.1 hEach
    rw [List.mapM_cons, hFirst, pure_bind, ih hRest, pure_bind, List.map_cons]

/-- A guarded run and a run fail with one error, or succeed with related results. -/
inductive Tracks (R : α → β → Prop) : Guarded ε α → Except ε β → Prop
  | ok {a : α} {b : β} (hRelated : R a b) : Tracks R (pure a) (.ok b)
  | error (e : ε) : Tracks R (throw e) (.error e)

theorem Tracks.bind {γ δ : Type} {R : α → β → Prop} {S : γ → δ → Prop} {x : Guarded ε α}
    {y : Except ε β} {f : α → Guarded ε γ} {g : β → Except ε δ} (hFirst : Tracks R x y)
    (hNext : ∀ a b, R a b → y = .ok b → Tracks S (f a) (g b)) :
    Tracks S (x >>= f) (y >>= g) := by
  cases hFirst with
  | @ok a b hRelated =>
    rw [pure_bind]
    exact hNext a b hRelated rfl
  | error e => exact .error e

theorem tracks_eq_iff {x : Guarded ε α} {y : Except ε α} : Tracks Eq x y ↔ x = clean y := by
  constructor
  · intro hTracks
    cases hTracks with
    | ok hEq => exact hEq ▸ rfl
    | error e => rfl
  · rintro rfl
    cases y with
    | ok a => exact .ok rfl
    | error e => exact .error e

end Guarded

open Guarded

/-! ## Lexemes -/

/-- The characters that are taken for symbols. -/
def symbolClass : List Char :=
  [Char.ofNat 0x7b, Char.ofNat 0x7d, '(', ')', '<', '>', '[', ']', ',', ';', '=', '@', '.']

/-- The lexeme at the start of a text, where a character is taken for a symbol before it is known
which one it is. -/
def guardedLexeme? : List Char → Except Defect (Option (Lexeme × List Char))
  | [] => .ok none
  | c :: rest =>
    if Text.isBlank c then .ok (some (runLexeme .blank Text.isBlank c rest))
    else if c = '/' then .ok (commentLexeme? rest)
    else if isWordStart c then .ok (some (runLexeme .word isWordPart c rest))
    else if c.isDigit then .ok (some (runLexeme .number Char.isDigit c rest))
    else if c ∈ symbolClass then
      match Symbol.ofChar? c with
      | some symbol => .ok (some (⟨.symbol symbol, [c]⟩, rest))
      | none => .error .symbol
    else .ok none

/-- Every character of the class is a symbol, and no other is. -/
theorem ofChar?_isSome {c : Char} : (Symbol.ofChar? c).isSome = true ↔ c ∈ symbolClass := by
  have hClass : symbolClass = Symbol.all.map Symbol.char := by decide
  rw [hClass, Symbol.ofChar?, List.find?_isSome, List.mem_map]
  simp

theorem guardedLexeme?_eq (text : List Char) : guardedLexeme? text = .ok (lexeme? text) := by
  cases text with
  | nil => rfl
  | cons c rest =>
    simp only [guardedLexeme?, lexeme?]
    have hSymbol := @ofChar?_isSome c
    cases hFind : Symbol.ofChar? c with
    | some symbol =>
      rw [hFind] at hSymbol
      rw [if_pos (hSymbol.1 rfl)]
      split_ifs <;> rfl
    | none =>
      rw [hFind] at hSymbol
      rw [if_neg fun hMem => Bool.false_ne_true (hSymbol.2 hMem)]
      split_ifs <;> rfl

/-- Scans the text that starts at `span`. -/
def guardedScan (span : Span) : (text : List Char) → Except Defect Scanned
  | [] => .ok ⟨[], [], span⟩
  | c :: tail =>
    match _hLexeme : guardedLexeme? (c :: tail) with
    | .error defect => .error defect
    | .ok (some (l, rest)) => do
      let found ← guardedScan (span.advance l.text) rest
      return found.add span l.token?
    | .ok none => do
      let front := (stretch (c :: tail)).1
      if ['/', '*'].isPrefixOf front then return ⟨[], [⟨span, .unterminatedComment⟩], span⟩
      else
        let found ← guardedScan (span.advance front) (stretch (c :: tail)).2
        return found.add span (.error (.unexpectedText (String.ofList front)))
termination_by text => text.length
decreasing_by
  · rw [guardedLexeme?_eq] at _hLexeme
    exact lexeme?_length (Except.ok.inj _hLexeme)
  · rw [guardedLexeme?_eq] at _hLexeme
    exact stretch_length (Except.ok.inj _hLexeme)

theorem guardedScan_eq (span : Span) (text : List Char) :
    guardedScan span text = .ok (scan span text) := by
  fun_induction scan span text with
  | case1 span => rw [guardedScan]
  | case2 span c tail l rest hLexeme ih =>
    rw [guardedScan]
    split
    next hOther => simp [guardedLexeme?_eq] at hOther
    next hOther =>
      rw [guardedLexeme?_eq, hLexeme] at hOther
      cases hOther
      rw [ih]
      rfl
    next hOther => simp [guardedLexeme?_eq, hLexeme] at hOther
  | case3 span c tail hLexeme front hOpen =>
    rw [guardedScan]
    split
    next hOther => simp [guardedLexeme?_eq] at hOther
    next hOther => simp [guardedLexeme?_eq, hLexeme] at hOther
    next hOther => exact if_pos hOpen
  | case4 span c tail hLexeme front hOpen ih =>
    rw [guardedScan]
    split
    next hOther => simp [guardedLexeme?_eq] at hOther
    next hOther => simp [guardedLexeme?_eq, hLexeme] at hOther
    next hOther =>
      refine (if_neg hOpen).trans ?_
      rw [ih]
      rfl

/-! ## Tokens -/

/-- The token at a position, where positions behind the last one stand for it. -/
def tokenAt (tokens : List (Option Located)) (position : Nat) : Except Defect (Option Located) :=
  match tokens[min position (tokens.length - 1)]? with
  | some token => .ok token
  | none => .error .token

/-- A list of tokens that ends with a mark. -/
def marked (items : List Located) : List (Option Located) :=
  items.map some ++ [none]

theorem tokenAt_marked (items : List Located) (position : Nat) :
    tokenAt (marked items) position = .ok items[position]? := by
  have hLength : (marked items).length - 1 = items.length := by simp [marked]
  rw [tokenAt, hLength, marked]
  by_cases hPosition : position < items.length
  · rw [Nat.min_eq_left (Nat.le_of_lt hPosition),
      List.getElem?_append_left (by simpa using hPosition), List.getElem?_map,
      List.getElem?_eq_getElem hPosition]
    rfl
  · rw [Nat.min_eq_right (Nat.le_of_not_lt hPosition),
      List.getElem?_eq_none (Nat.le_of_not_lt hPosition)]
    simp

/-- Takes the tokens of a file from a position on. -/
def guardedSteps (tokens : Tokens) (position : Nat) (state : State) :
    Guarded FaultAt (List Statement) :=
  match _hToken : tokenAt (marked tokens.items) position with
  | .error defect => stop defect
  | .ok (some token) => do
    let next ← clean (state.step token)
    guardedSteps tokens (position + 1) next
  | .ok none => clean (state.finish tokens.stop)
termination_by tokens.items.length - position
decreasing_by
  rw [tokenAt_marked] at _hToken
  have hLess := (List.getElem?_eq_some_iff.1 (Except.ok.inj _hToken)).1
  omega

theorem guardedSteps_eq (tokens : Tokens) (front rest : List Located)
    (hItems : tokens.items = front ++ rest) (state : State) :
    guardedSteps tokens front.length state =
      clean (rest.foldlM State.step state >>= fun last => last.finish tokens.stop) := by
  induction rest generalizing front state with
  | nil =>
    rw [guardedSteps]
    split
    next hToken => simp [tokenAt_marked] at hToken
    next hToken =>
      rw [tokenAt_marked, hItems, List.append_nil, List.getElem?_length] at hToken
      cases hToken
    next => rfl
  | cons token rest ih =>
    have hHere : tokens.items[front.length]? = some token := by
      rw [hItems, List.getElem?_append_right (Nat.le_refl _), Nat.sub_self]
      rfl
    rw [guardedSteps]
    split
    next hToken => simp [tokenAt_marked] at hToken
    next found hToken =>
      rw [tokenAt_marked, hHere] at hToken
      cases hToken
      rw [List.foldlM_cons, bind_assoc, clean_bind]
      refine bind_congr fun next => ?_
      have hNext := ih (front ++ [token]) (by simp [hItems]) next
      rwa [List.length_append, List.length_singleton] at hNext
    next hToken =>
      rw [tokenAt_marked, hHere] at hToken
      cases hToken

theorem guardedSteps_start (tokens : Tokens) :
    guardedSteps tokens 0 State.start = clean (parseTokens tokens) :=
  guardedSteps_eq tokens [] tokens.items rfl State.start

/-! ## Files -/

/-- The statements of a text. -/
def guardedParse (text : String) : Guarded (List FaultAt) (List Statement) :=
  match guardedScan Span.start text.toList with
  | .error defect => stop defect
  | .ok found =>
    if found.faults.isEmpty then
      mapError (fun fault => [fault]) (guardedSteps ⟨found.tokens, found.stop⟩ 0 State.start)
    else throw found.faults

theorem guardedParse_eq (text : String) : guardedParse text = clean (parse text) := by
  rw [guardedParse, guardedScan_eq, parse, tokenize]
  dsimp only
  split
  next =>
    rw [guardedSteps_start]
    generalize
      (⟨(scan Span.start text.toList).tokens, (scan Span.start text.toList).stop⟩ : Tokens) =
      tokens
    have hBind : ∀ next : Tokens → Except (List FaultAt) (List Statement),
        (Except.ok tokens >>= next) = next tokens := fun _ => rfl
    rw [hBind]
    cases parseTokens tokens with
    | ok statements => rfl
    | error fault => rfl
  next => rfl

def guardedParseFile (source : Source) : Guarded (List Diagnostic) SourceFile := do
  let statements ← mapError (List.map fun f => ⟨source.path, f.span, f.fault⟩)
    (guardedParse source.text)
  return ⟨source.path, statements⟩

theorem guardedParseFile_eq (source : Source) :
    guardedParseFile source = clean (parseFile source) := by
  rw [guardedParseFile, guardedParse_eq, parseFile]
  cases parse source.text <;> rfl

/-- Parses all files, also behind one with faults. -/
def guardedParseFiles : List Source → Guarded (List Diagnostic) (List SourceFile)
  | [] => pure []
  | source :: rest =>
    match (guardedParseFile source).run, (guardedParseFiles rest).run with
    | .error defect, _ => stop defect
    | _, .error defect => stop defect
    | .ok (.ok file), .ok (.ok files) => pure (file :: files)
    | .ok (.ok _), .ok (.error later) => throw later
    | .ok (.error found), .ok (.ok _) => throw found
    | .ok (.error found), .ok (.error later) => throw (found ++ later)

theorem guardedParseFiles_eq (sources : List Source) :
    guardedParseFiles sources = clean (parseFiles sources) := by
  induction sources with
  | nil => rfl
  | cons source rest ih =>
    rw [guardedParseFiles, ih, guardedParseFile_eq, parseFiles]
    cases parseFile source <;> cases parseFiles rest <;> rfl

/-! ## Order -/

section

variable {α : Type} [DecidableEq α]

/-- Walks from `node`, which has to have a mark and to be declared. -/
def guardedVisit (nodes : List α) (needs? : α → Option (List α)) (stack done : List α) (node : α) :
    Guarded (List α) (List α) :=
  if _hMem : node ∈ nodes then
    if node ∈ done then pure done
    else if _hNew : node ∉ stack then do
      let needs ← demand .declaration (needs? node)
      let sofar ← needs.foldlM
        (fun sofar next => guardedVisit nodes needs? (node :: stack) sofar next) done
      return sofar ++ [node]
    else throw (Graph.cycle node stack)
  else stop .mark
termination_by (Graph.fresh nodes stack).length
decreasing_by exact Graph.fresh_cons_length_lt _hMem _hNew

/-- A walk through a graph in which every need is a node. -/
theorem guardedVisit_eq {nodes : List α} {needs : α → List α} {needs? : α → Option (List α)}
    (hNeeds : ∀ node ∈ nodes, needs? node = some (needs node))
    (hClosed : ∀ node ∈ nodes, ∀ next ∈ needs node, next ∈ nodes) (stack done : List α) {node : α}
    (hMem : node ∈ nodes) :
    guardedVisit nodes needs? stack done node =
      clean (Graph.visit nodes needs stack done node) := by
  induction hFresh : (Graph.fresh nodes stack).length using Nat.strongRecOn
    generalizing stack done node with
  | ind bound ih =>
    rw [guardedVisit, Graph.visit, dif_pos hMem]
    by_cases hDone : node ∈ done
    · rw [if_pos hDone, if_pos hDone]
      rfl
    · rw [if_neg hDone, if_neg hDone]
      by_cases hNew : node ∉ stack
      · have hLess := Graph.fresh_cons_length_lt hMem hNew
        rw [dif_pos hNew, dif_pos hNew, dif_pos hMem, demand_some (hNeeds node hMem), pure_bind,
          clean_foldlM fun next hNext sofar =>
            ih _ (hFresh ▸ hLess) _ sofar (hClosed node hMem next hNext) rfl]
        cases (needs node).foldlM (fun sofar next =>
          Graph.visit nodes needs (node :: stack) sofar next) done <;> rfl
      · rw [dif_neg hNew, dif_neg hNew]
        rfl

end

/-- Declarations in dependency order, where every full name that is met has to be declared. -/
def guardedSort (table : List Resolved) : Guarded CompileError (List Resolved) := do
  let names := Identifier.sort (table.map Resolved.identifier)
  let needs? := fun name => (Resolved.find? table name).map Resolved.dependencies
  let order ← mapError CompileError.circularDependency
    (names.foldlM (fun done node => guardedVisit names needs? [] done node) [])
  order.mapM fun name => demand .declaration (Resolved.find? table name)

/-- Declared names lead back to their declarations. -/
theorem mapM_find? {table : List Resolved} (hNames : (table.map Resolved.identifier).Nodup)
    {order : List Identifier} (hKnown : ∀ name ∈ order, name ∈ table.map Resolved.identifier) :
    (order.mapM fun name => demand .declaration (Resolved.find? table name)) =
      (pure (order.filterMap (Resolved.find? table)) : Guarded CompileError (List Resolved)) := by
  induction order with
  | nil => rfl
  | cons name rest ih =>
    obtain ⟨hName, hRest⟩ := List.forall_mem_cons.1 hKnown
    obtain ⟨resolved, hMem, rfl⟩ := List.mem_map.1 hName
    have hFind := Resolved.find?_identifier hNames hMem
    rw [List.mapM_cons, demand_some hFind, pure_bind, ih hRest, pure_bind,
      List.filterMap_cons_some hFind]

theorem guardedSort_eq {table : List Resolved} (hTable : Resolved.Closed table) :
    guardedSort table = clean (sortDeclarations table) := by
  have hSort : ∀ name, name ∈ Identifier.sort (table.map Resolved.identifier) ↔
      name ∈ table.map Resolved.identifier := fun name => (List.mergeSort_perm _ _).mem_iff
  have hNeeds : ∀ name ∈ Identifier.sort (table.map Resolved.identifier),
      (Resolved.find? table name).map Resolved.dependencies = some (Resolved.needs table name) := by
    intro name hName
    obtain ⟨resolved, hMem, rfl⟩ := List.mem_map.1 ((hSort name).1 hName)
    rw [Resolved.needs, Resolved.find?_identifier hTable.names hMem]
    rfl
  have hClosed : ∀ name ∈ Identifier.sort (table.map Resolved.identifier),
      ∀ next ∈ Resolved.needs table name,
        next ∈ Identifier.sort (table.map Resolved.identifier) := by
    intro name _ next hNext
    obtain ⟨resolved, hMem, _, hTarget⟩ := (Resolved.mem_needs hTable.names).1 hNext
    exact (hSort next).2 (hTable.targets resolved hMem next hTarget)
  have hWalk := clean_foldlM (b := []) fun name hName done =>
    guardedVisit_eq hNeeds hClosed [] done hName
  rw [guardedSort, hWalk, sortDeclarations]
  have hOutcome := Graph.order_outcome (Identifier.sort (table.map Resolved.identifier))
    (Resolved.needs table)
  rw [Graph.order] at hOutcome ⊢
  cases hOrder : (Identifier.sort (table.map Resolved.identifier)).foldlM (fun done node =>
      Graph.visit (Identifier.sort (table.map Resolved.identifier)) (Resolved.needs table) [] done
        node) [] with
  | error path => rfl
  | ok order =>
    rw [hOrder] at hOutcome
    -- The order lists declared names only, so each of them is found.
    exact mapM_find? hTable.names fun name hName =>
      (hSort name).1 (hOutcome.1.ordered.known name hName)

end Interchange.Schema
