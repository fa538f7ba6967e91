import Interchange.Proofs.Schema.Acceptance
import Interchange.Proofs.Schema.Layout
import Interchange.Proofs.Schema.Outward
import Interchange.Proofs.Schema.Places
import Interchange.Proofs.Schema.Segmentation

/-!
# Names of a project

A name that is declared in a schema file is a word of the text, and the namespaces around it are
words with dots between them. So the full names of a project hold letters, digits, underscores and
dots, and the only dots are those between namespaces and in front of the name. This is not a rule of
its own: it follows a name from the scanner through the grammar to the table of declarations.

* `IsWord`, `IsPath`, `Identifier.Plain`: the characters of names.
* `Identifier.Plain.parse_text`: a full name can be read off its text.
* `isWord_of_tokenize`: the words of a text.
* `StatementText.named`, `parse_named`: the names in a file.
* `entries_plain`, `compile_plain`: full names.
-/

namespace Interchange.Schema

/-! ## Characters of names -/

/-- Letters, digits and underscores. -/
def IsWord (name : String) : Prop :=
  ∀ c ∈ name.toList, isWordPart c = true

/-- The characters of a dotted name. -/
def isPathPart (c : Char) : Bool :=
  isWordPart c || c == '.'

/-- Letters, digits, underscores and dots. -/
def IsPath (path : String) : Prop :=
  ∀ c ∈ path.toList, isPathPart c = true

/-- A word in a namespace. -/
structure Identifier.Plain (identifier : Identifier) : Prop where
  scope : IsPath identifier.scope
  name : IsWord identifier.name

theorem IsWord.isPath {name : String} (hName : IsWord name) : IsPath name := by
  intro c hc
  rw [isPathPart, hName c hc, Bool.true_or]

theorem IsPath.append_dot {outer inner : String} (hOuter : IsPath outer) (hInner : IsPath inner) :
    IsPath (outer ++ "." ++ inner) := by
  intro c hc
  simp only [String.toList_append, List.mem_append] at hc
  rcases hc with (hc | hc) | hc
  · exact hOuter c hc
  · obtain rfl := List.mem_singleton.1 hc
    decide
  · exact hInner c hc

theorem IsPath.join {outer inner : String} (hOuter : IsPath outer) (hInner : IsPath inner) :
    IsPath (Namespace.join outer inner) := by
  rw [Namespace.join]
  split
  · exact hInner
  · split
    · exact hOuter
    · exact hOuter.append_dot hInner

theorem isPath_intercalate {segments : List String}
    (hSegments : ∀ segment ∈ segments, IsWord segment) :
    IsPath (String.intercalate "." segments) := by
  induction segments with
  | nil =>
    intro c hc
    cases hc
  | cons first rest ih =>
    obtain ⟨hFirst, hRest⟩ := List.forall_mem_cons.1 hSegments
    cases rest with
    | nil =>
      rw [String.intercalate_singleton]
      exact hFirst.isPath
    | cons second others =>
      rw [String.intercalate_cons_cons]
      exact hFirst.isPath.append_dot (ih hRest)

theorem IsWord.not_dot {name : String} (hName : IsWord name) : '.' ∉ name.toList := by
  intro hMem
  have hDot := hName _ hMem
  revert hDot
  decide

namespace Identifier.Plain

variable {identifier : Identifier}

theorem isPath_text (hPlain : identifier.Plain) : IsPath identifier.text := by
  rw [text]
  split
  · exact hPlain.name.isPath
  · exact hPlain.scope.append_dot hPlain.name.isPath

/-- The last dot of the text is the one in front of the name. -/
theorem parse_text (hPlain : identifier.Plain) : parse identifier.text = identifier := by
  have hName := hPlain.name.not_dot
  obtain ⟨scope, name⟩ := identifier
  by_cases hScope : scope = ""
  · subst hScope
    have hText : text ⟨"", name⟩ = name := rfl
    rw [hText, parse, splitLastDot?_of_not_mem hName]
    rfl
  · have hText : (text ⟨scope, name⟩).toList = scope.toList ++ '.' :: name.toList := by
      rw [text, if_neg (by simpa using hScope), String.toList_append, String.toList_append,
        List.append_assoc]
      rfl
    rw [parse, hText, splitLastDot?_append _ hName]
    dsimp only
    rw [String.ofList_toList, String.ofList_toList]

theorem text_inj {other : Identifier} (hPlain : identifier.Plain) (hOther : other.Plain)
    (hText : identifier.text = other.text) : identifier = other := by
  rw [← hPlain.parse_text, hText, hOther.parse_text]

end Identifier.Plain

/-! ## Words of a text -/

theorem Segments.leads {text rest : List Char} {lexemes : List Lexeme}
    (hSegments : Segments text lexemes rest) {l : Lexeme} (hMem : l ∈ lexemes) :
    ∃ front after, Leads front l after := by
  induction hSegments with
  | nil => cases hMem
  | cons hFirst _ ih =>
    rcases List.mem_cons.1 hMem with rfl | hMem
    · exact ⟨_, _, hFirst⟩
    · exact ih hMem

theorem mem_tokensBehind {before : List Char} {lexemes : List Lexeme} {t : Located}
    (hMem : t ∈ tokensBehind before lexemes) : ∃ l ∈ lexemes, l.meaning? = some t.token := by
  induction lexemes generalizing before with
  | nil => cases hMem
  | cons l rest ih =>
    rw [tokensBehind] at hMem
    split at hMem
    next token hToken =>
      rcases List.mem_cons.1 hMem with rfl | hMem
      · exact ⟨l, List.mem_cons_self, hToken⟩
      · obtain ⟨other, hOther, hMeaning⟩ := ih hMem
        exact ⟨other, List.mem_cons_of_mem _ hOther, hMeaning⟩
    next =>
      obtain ⟨other, hOther, hMeaning⟩ := ih hMem
      exact ⟨other, List.mem_cons_of_mem _ hOther, hMeaning⟩

theorem isWordPart_of_isWordStart {c : Char} (hStart : isWordStart c = true) :
    isWordPart c = true := by
  rw [isWordStart, Bool.or_eq_true] at hStart
  rw [isWordPart, Bool.or_eq_true]
  exact hStart.imp (fun hAlpha => by rw [Char.isAlphanum, hAlpha, Bool.true_or]) id

/-- An identifier among the tokens of a text is a word. -/
theorem isWord_of_tokenize {text : String} {tokens : Tokens} (hTokens : tokenize text = .ok tokens)
    {name : String} {span : Span} (hMem : word name span ∈ tokens.items) : IsWord name := by
  rw [tokenize] at hTokens
  split at hTokens
  next hClean =>
    cases hTokens
    obtain ⟨lexemes, rest, hSegments, _, ⟨_, hScan⟩ | ⟨_, first, later, hFaults, _⟩⟩ :=
      scan_outcome [] text.toList
    · have hStart : Span.behind [] = Span.start := rfl
      rw [hStart] at hScan
      rw [hScan] at hMem
      obtain ⟨l, hl, hMeaning⟩ := mem_tokensBehind hMem
      obtain ⟨front, after, hLeads⟩ := hSegments.leads hl
      cases hLeads with
      | @word first run rest hFirst hRun =>
        cases hMeaning
        intro c hc
        rw [String.toList_ofList] at hc
        rcases List.mem_cons.1 hc with rfl | hc
        · exact isWordPart_of_isWordStart hFirst
        · exact hRun c hc
      | _ => cases hMeaning
    · have hStart : Span.behind [] = Span.start := rfl
      rw [hStart] at hFaults
      rw [hFaults] at hClean
      cases hClean
  next => cases hTokens

/-! ## Names in a file -/

/-- The names that a statement declares, and those of its namespaces, have a property. -/
inductive Statement.Named (P : String → Prop) : Statement → Prop
  | fileNamespace {name : QualifiedName} {span : Span}
      (hName : ∀ segment ∈ name.segments, P segment) :
      Named P (.fileNamespace name span)
  | block {name : QualifiedName} {body : List Statement} {span : Span}
      (hName : ∀ segment ∈ name.segments, P segment)
      (hBody : ∀ statement ∈ body, Named P statement) :
      Named P (.block name body span)
  | message {decl : ModelDecl FieldDecl} (hName : P decl.name) : Named P (.message decl)
  | tag {decl : ModelDecl VariantDecl} (hName : P decl.name) : Named P (.tag decl)
  | service {decl : ServiceDecl} (hName : P decl.name) : Named P (.service decl)

section

variable {P : String → Prop}

theorem NameText.named {items : List Located} {span : Span} {name : QualifiedName}
    (hName : NameText items span name) (hWords : ∀ name span, word name span ∈ items → P name) :
    ∀ segment ∈ name.segments, P segment := by
  induction hName with
  | first segment span =>
    intro other hOther
    obtain rfl := List.mem_singleton.1 hOther
    exact hWords _ span (by simp)
  | @push items span dot place name hName segment ih =>
    have hSegments : (name.push segment).segments = name.segments ++ [segment] := rfl
    rw [hSegments]
    intro other hOther
    rcases List.mem_append.1 hOther with hOther | hOther
    · exact ih (fun name span hMem => hWords name span (by simp [hMem])) other hOther
    · obtain rfl := List.mem_singleton.1 hOther
      exact hWords _ place (by simp)

theorem HeaderText.named {items : List Located} {params : List String} {name : String}
    (hHeader : HeaderText items params name)
    (hWords : ∀ name span, word name span ∈ items → P name) :
    P name := by
  cases hHeader with
  | @plain _ place => exact hWords _ place (by simp)
  | @template _ _ _ _ _ place _ _ => exact hWords _ place (by simp)

mutual

/-- The names of a statement are words of its text. -/
theorem StatementText.named : ∀ {items : List Located} {statement : Statement},
    StatementText items statement → (∀ name span, word name span ∈ items → P name) →
      statement.Named P
  | _, _, .fileNamespace hName, hWords =>
    .fileNamespace (hName.named fun name span hMem => hWords name span (by simp [hMem]))
  | _, _, .block hName hBody, hWords =>
    .block (hName.named fun name span hMem => hWords name span (by simp [hMem]))
      (statementsNamed hBody fun name span hMem => hWords name span (by simp [hMem]))
  | _, _, .message hHeader _, hWords =>
    .message (hHeader.named fun name span hMem => hWords name span (by simp [hMem]))
  | _, _, .tag hHeader _, hWords =>
    .tag (hHeader.named fun name span hMem => hWords name span (by simp [hMem]))
  | _, _, @StatementText.service _ _ place _ _ _ name _, hWords =>
    .service (hWords name place (by simp))

theorem statementsNamed : ∀ {items : List Located} {statements : List Statement},
    Repeated StatementText items statements → (∀ name span, word name span ∈ items → P name) →
      ∀ statement ∈ statements, statement.Named P
  | _, _, .nil, _ => by simp
  | _, _, .snoc hItems hLast, hWords =>
    List.forall_mem_append.2
      ⟨statementsNamed hItems fun name span hItem =>
        hWords name span (List.mem_append_left _ hItem),
        List.forall_mem_singleton.2
          (hLast.named fun name span hItem => hWords name span (List.mem_append_right _ hItem))⟩

end

end

/-- The names in a text that is parsed are words. -/
theorem parse_named {text : String} {statements : List Statement}
    (hParse : parse text = .ok statements) : ∀ statement ∈ statements, statement.Named IsWord := by
  obtain ⟨tokens, hTokens, hParse⟩ := bind_eq_ok.1 hParse
  split at hParse
  next hStatements =>
    cases hParse
    obtain ⟨state, hState, hFinish⟩ := bind_eq_ok.1 hStatements
    rw [State.finish_eq_ok] at hFinish
    subst hFinish
    have hRuns := (State.foldlM_step_iff_runs.1 ⟨State.lawful_start, hState⟩).1
    exact statementsNamed (runs_iff_file.1 hRuns) fun _ _ hMem => isWord_of_tokenize hTokens hMem
  next => cases hParse

/-! ## Full names -/

theorem entries_plain (scope : String) (statements : List Statement) :
    IsPath scope → (∀ statement ∈ statements, statement.Named IsWord) →
      ∀ declaration, Declaration.Entry.declared declaration ∈ Declaration.entries scope statements →
        declaration.identifier.Plain := by
  have hText : ∀ {name : QualifiedName}, (∀ segment ∈ name.segments, IsWord segment) →
      IsPath name.text := isPath_intercalate
  induction scope, statements using Declaration.entries.induct with
  | case1 scope => simp [Declaration.entries]
  | case2 scope name span rest inner ih =>
    intro hScope hNamed declaration hMem
    obtain ⟨hFirst, hRest⟩ := List.forall_mem_cons.1 hNamed
    cases hFirst with
    | fileNamespace hName =>
      rw [Declaration.entries] at hMem
      rcases List.mem_cons.1 hMem with hEq | hMem
      · cases hEq
      · exact ih (hScope.join (hText hName)) hRest declaration hMem
  | case3 scope name body span rest inner ihBody ihRest =>
    intro hScope hNamed declaration hMem
    obtain ⟨hFirst, hRest⟩ := List.forall_mem_cons.1 hNamed
    cases hFirst with
    | block hName hBody =>
      rw [Declaration.entries] at hMem
      rcases List.mem_cons.1 hMem with hEq | hMem
      · cases hEq
      · rcases List.mem_append.1 hMem with hMem | hMem
        · exact ihBody (hScope.join (hText hName)) hBody declaration hMem
        · exact ihRest hScope hRest declaration hMem
  | case4 scope decl rest ih | case5 scope decl rest ih | case6 scope decl rest ih =>
    intro hScope hNamed declaration hMem
    obtain ⟨hFirst, hRest⟩ := List.forall_mem_cons.1 hNamed
    rw [Declaration.entries] at hMem
    rcases List.mem_cons.1 hMem with hEq | hMem
    · cases hEq
      cases hFirst
      exact ⟨hScope, by assumption⟩
    · exact ih hScope hRest declaration hMem

theorem builtins_plain : ∀ declaration ∈ Declaration.builtins, declaration.identifier.Plain := by
  intro declaration hMem
  obtain ⟨kind, _, rfl⟩ := List.mem_map.1 hMem
  have hScope : Builtin.scope.toList.all isPathPart = true := by cbv
  have hName : kind.name.toList.all isWordPart = true := by cases kind <;> cbv
  exact ⟨List.all_eq_true.1 hScope, List.all_eq_true.1 hName⟩

theorem collect_plain {sources : List Source} {files : List SourceFile} {table : List Declaration}
    (hFiles : parseFiles sources = .ok files) (hRun : Declaration.collect files = .ok table) :
    ∀ declaration ∈ table, declaration.identifier.Plain := by
  obtain ⟨_, rfl⟩ := (Declaration.foldlM_register Declaration.builtins_lawful.names).1 hRun
  intro declaration hMem
  rcases List.mem_append.1 hMem with hMem | hMem
  · exact builtins_plain declaration hMem
  · obtain ⟨entry, hEntry, hDeclared⟩ := List.mem_filterMap.1 hMem
    obtain ⟨file, hFile, hEntry⟩ := List.mem_flatMap.1 hEntry
    obtain ⟨source, _, hParse⟩ := exists_of_mem_right (parseFiles_eq_ok.1 hFiles) hFile
    cases entry with
    | entered path => cases hDeclared
    | declared other =>
      cases hDeclared
      have hNamed : ∀ statement ∈ file.statements, statement.Named IsWord := by
        rw [parseFile] at hParse
        split at hParse
        next hStatements =>
          cases hParse
          exact parse_named hStatements
        next => cases hParse
      exact entries_plain "" file.statements (by simp [IsPath]) hNamed _ hEntry

/-- The full names of a project are plain. -/
theorem compile_plain {options : Options} {sources : List Source} {project : Project}
    (hRun : compile options sources = .ok project) :
    ∀ definition ∈ project.definitions, definition.identifier.Plain := by
  obtain ⟨files, declared, table, hFiles, hDeclared, hTable, hSeated⟩ := compile_seated hRun
  intro definition hMem
  have hModel := (hSeated.isModel _).1 (List.mem_map_of_mem hMem)
  rw [Resolved.isModel_iff hTable] at hModel
  obtain ⟨declaration, hDeclaration, hName, _⟩ := hModel
  rw [← hName]
  exact collect_plain hFiles hDeclared declaration hDeclaration

end Interchange.Schema
