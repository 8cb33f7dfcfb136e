import DCScan.Generator
import DCScan.Conditionals
import DCScan.Lib.Splitting

/-!
How `DCSGen.py` finds the registered declarations of a header: `cleanFiles` joins its lines to
statements, and `getTokenSymbols` follows the scopes and reads the declarations.

A statement begins where the last one ended, and a line ends one by its last character, so that a line
with anything behind it runs on into the next. The braces of a scope are counted under its name
alone.
-/

namespace DCScan.Scanner

open Lib Conditionals Generator

/-! ## The statements -/

/-- The line ends a statement. -/
def ended (piece : Text) : Bool := piece.getLast?.any (· ∈ [';', '}', '{'])

/-- The loop of `cleanFiles` over the lines that it looks at. -/
def joinLines (p : Text) : List Text → List Text
  | [] => []
  | line :: rest =>
    if passed line then
      if ended (ns line) then
        (p ++ ' ' :: ns line).dropWhile (· = ' ') :: joinLines [] rest
      else joinLines (p ++ ' ' :: ns line) rest
    else joinLines p rest

def cleanFiles (compdef lst : List Text) : List Text :=
  joinLines [] (((cleanScan compdef lst).filter Prod.snd).map Prod.fst)

/-! ## The symbols -/

def token_call : Text := "DCS_REGISTER_CALL".toList

def token_evt : Text := "DCS_REGISTER_EVENT".toList

/-- `xs[-2]`; `none` when there is none. -/
def secondLast (xs : List Text) : Option Text := xs.dropLast.getLast?

/-- `v.split('(')[-2].split(' ')[-1]`. -/
def funcName (v : Text) : Option Text := do
  let part ← secondLast (v.splitOn '(')
  (part.splitOn ' ').getLast?

/-- `re.findall('\\((.*?)\\)', v, re.DOTALL)[0]`. -/
def firstParens (v : Text) : Option Text := do
  let (_, found) ← seek ['('].isPrefixOf v
  let (inside, _) ← seek [')'].isPrefixOf found.tail
  return inside

/-- `y.strip()`. -/
def strip (y : Text) : Text := ((y.dropWhile isspace).reverse.dropWhile isspace).reverse

/-- `'::'.join(f_prefix) + '::' + name`. -/
def qualified (fPrefix : List Text) (name : Text) : Text :=
  [':', ':'].intercalate fPrefix ++ [':', ':'] ++ name

/-- What is known of a return type and of argument types. -/
def declare (func : Text) (f_raw_types : List Text) : Declaration where
  func
  returnType := if f_raw_types.headD [] ≠ "void".toList then f_raw_types.headD [] else []
  argsName := if f_raw_types.length > 1 then f_raw_types.tail else [[]]

/-- `f_prefix`, `oc` and `scope`, and what has been found. -/
structure Symbols where
  fPrefix : List Text
  oc : Text → Int
  scope : Text
  found : Header

def startsScope (v : Text) : Bool :=
  "namespace".toList.isPrefixOf v || "class".toList.isPrefixOf v || "struct".toList.isPrefixOf v

/-- The statement's braces, `{` less `}`. -/
def net (v : Text) : Int := v.count '{' - v.count '}'

/-- The first half of the loop, which follows the scopes. -/
def Symbols.readScope (s : Symbols) (v : Text) : Option Symbols :=
  if startsScope v then
    (secondLast (v.splitOn ' ')).map fun scope =>
      { s with fPrefix := s.fPrefix ++ [scope], oc := Function.update s.oc scope 1, scope }
  else if s.scope = [] then some s
  else
    let count := s.oc s.scope + net v
    let counted := { s with oc := Function.update s.oc s.scope count }
    if count = 0 ∧ s.fPrefix ≠ [] then
      some { counted with
        fPrefix := s.fPrefix.dropLast
        scope := s.fPrefix.dropLast.getLast?.getD s.scope }
    else some counted

/-- The second half, which reads the declarations. -/
def Symbols.readToken (s : Symbols) (v : Text) : Option Symbols :=
  if token_call.isPrefixOf v then do
    let name ← funcName v
    let types ← firstParens v
    let declaration := declare (qualified s.fPrefix name) ((types.splitOn ',').map strip)
    return { s with found := { s.found with declarations := s.found.declarations ++ [declaration] } }
  else if token_evt.isPrefixOf v then do
    let name ← funcName v
    return { s with found := { s.found with events := s.found.events ++ [qualified s.fPrefix name] } }
  else some s

def Symbols.readLine (s : Symbols) (v : Text) : Option Symbols := (s.readScope v).bind (·.readToken v)

/-- What is found in a header; `none` when the script fails. -/
def getTokenSymbols (data : List Text) : Option Header :=
  (data.foldlM Symbols.readLine ⟨[], fun _ => 0, [], ⟨[], []⟩⟩).map Symbols.found

/-! ## Headers -/

inductive Kind where
  | Namespace
  | Class
  | Struct
  deriving DecidableEq

def Kind.word : Kind → Text
  | .Namespace => "namespace".toList
  | .Class => "class".toList
  | .Struct => "struct".toList

/-- What stands on one or more lines of its own. -/
inductive Part where
  /-- The beginning of a block, with what is before its name, and between the name and the brace. -/
  | opening (kind : Kind) (before name bases : Text)
  /-- The end of the block, with a semicolon or without. -/
  | closing (semicolon : Bool)
  /-- A registered function, with what is before its name, and all behind the name's parenthesis. -/
  | call (returnType : Text) (args : List Text) (before name params : Text)
  | event (before name params : Text)
  /-- A forward declaration, an access specifier, a member, or a line of an inline function or of a
  block in which nothing is registered. -/
  | other (text : Text)
  deriving DecidableEq

def Part.text : Part → Text
  | opening kind before name bases => kind.word ++ before ++ name ++ bases ++ ['{']
  | closing semicolon => if semicolon then ['}', ';'] else ['}']
  | call returnType args before name params =>
    token_call ++ '(' :: [','].intercalate (returnType :: args) ++ ')' :: before ++ name ++ '(' :: params
  | event before name params => token_evt ++ before ++ name ++ '(' :: params
  | other text => text

/-- The scopes behind it. -/
def Part.enter (scopes : List Text) : Part → List Text
  | opening _ _ name _ => scopes ++ [name]
  | closing _ => scopes.dropLast
  | _ => scopes

def Part.declarations (scopes : List Text) : Part → List Declaration
  | call returnType args _ name _ => [declare (qualified scopes name) ((returnType :: args).map strip)]
  | _ => []

def Part.events (scopes : List Text) : Part → List Text
  | event _ name _ => [qualified scopes name]
  | _ => []

/-- What each part says, in the scopes that enclose it. -/
def within {α : Type} (tells : List Text → Part → List α) : List Text → List Part → List α
  | _, [] => []
  | scopes, part :: parts => tells scopes part ++ within tells (part.enter scopes) parts

/-- The registered declarations, in order. -/
def declared (parts : List Part) : Header :=
  ⟨within Part.declarations [] parts, within Part.events [] parts⟩

/-- A part as it is laid out on its lines, a comment behind it. -/
structure Element where
  part : Part
  comment : Text
  /-- The lines without what indents them, blank lines, comments and directives left out. -/
  pieces : List Text

def Element.Formed (e : Element) : Prop := [' '].intercalate e.pieces = e.part.text ++ e.comment

instance (e : Element) : Decidable e.Formed := inferInstanceAs (Decidable (_ = _))

/-- A header without `NO_*` blocks. -/
structure HeaderText where
  lst : List Text
  elements : List Element
  formed : ∀ e ∈ elements, e.Formed
  lines : ∀ l ∈ lst, l ≠ [] ∧ isBlock l = false
  laid_out : (lst.filter passed).map ns = elements.flatMap Element.pieces

/-- Each registered declaration is found, once, with its scopes and its types. -/
def Seen (compdef : List Text) (h : HeaderText) : Prop :=
  getTokenSymbols (cleanFiles compdef h.lst) = some (declared (h.elements.map Element.part))

/-! ## Headers that are read right -/

/-- A scope, with the number of braces that are open in it. -/
structure Enclosing where
  name : Text
  depth : Int

/-- The statement opens no scope and registers nothing. -/
structure Quiet (v : Text) : Prop where
  scope : startsScope v = false
  call : token_call.isPrefixOf v = false
  evt : token_evt.isPrefixOf v = false

/-- The name stands behind a space, and no parenthesis behind its own. -/
structure Named (before name behind : Text) : Prop where
  before : before.getLast? = some ' '
  name : ' ' ∉ name ∧ '(' ∉ name
  behind : '(' ∉ behind

/-- A type without commas and parentheses. -/
structure Typed (t : Text) : Prop where
  comma : ',' ∉ t
  parenthesis : ')' ∉ t

/-- The innermost scope has these braces more. -/
def settle (n : Int) : List Enclosing → List Enclosing
  | [] => []
  | o :: stack => ⟨o.name, o.depth + n⟩ :: stack

/-- The last of the lines ends a statement, and no other. -/
structure Whole (pieces : List Text) : Prop where
  unbroken : ∀ piece ∈ pieces.dropLast, ended piece = false
  last : pieces.getLast?.any ended = true

/-- What the lines `q` begin that have ended no statement, together with these. -/
def statement (q pieces : List Text) : Text := [' '].intercalate (q ++ pieces)

/-- The statement registers nothing, and is no scope of one word. -/
structure Idle (v : Text) : Prop where
  scope : startsScope v = true → ' ' ∈ v
  call : token_call.isPrefixOf v = false
  evt : token_evt.isPrefixOf v = false

/-- The statements of the pieces, behind those that have ended none. -/
def statements (q : List Text) : List Text → List Text
  | [] => []
  | piece :: rest =>
    if ended piece then [' '].intercalate (q ++ [piece]) :: statements [] rest
    else statements (q ++ [piece]) rest

/-- Headers that are read right, from inside the scopes `stack`, innermost first, and behind lines `q`
that have ended no statement. -/
inductive Regular : List Enclosing → List Text → List Element → Prop where
  /-- Behind the last registered declaration only nothing may look like one. -/
  | done (stack : List Enclosing) (q : List Text) (es : List Element)
      (unregistered : ∀ e ∈ es, ∀ scopes, e.part.declarations scopes = [] ∧ e.part.events scopes = [])
      (idle : ∀ v ∈ statements q (es.flatMap Element.pieces), Idle v) : Regular stack q es
  /-- A block begins with a statement, has no bases, and not the name of a block that it is in. -/
  | opening {stack : List Enclosing} {e : Element} {es : List Element} (kind : Kind)
      (before name : Text) (part : e.part = .opening kind before name [' ']) (comment : e.comment = [])
      (whole : Whole e.pieces) (space : before.getLast? = some ' ') (word : name ≠ [] ∧ ' ' ∉ name)
      (other : ∀ o ∈ stack, o.name ≠ name) (rest : Regular (⟨name, 0⟩ :: stack) [] es) :
      Regular stack [] (e :: es)
  /-- It ends where all other braces are closed, with the statement or, behind a comment, in it. -/
  | closing {stack : List Enclosing} {q : List Text} {e : Element} {es : List Element} (name : Text)
      (semicolon : Bool) (behind : List Element) (part : e.part = .closing semicolon)
      (others : ∀ b ∈ behind, ∃ text, b.part = .other text)
      (whole : Whole ((e :: behind).flatMap Element.pieces))
      (quiet : Quiet (statement q ((e :: behind).flatMap Element.pieces)))
      (closes : net (statement q ((e :: behind).flatMap Element.pieces)) = -1)
      (rest : Regular stack [] es) : Regular (⟨name, 0⟩ :: stack) q (e :: (behind ++ es))
  /-- A registered declaration begins a statement and ends it. -/
  | call {stack : List Enclosing} {e : Element} {es : List Element} (returnType : Text)
      (args : List Text) (before name params : Text)
      (part : e.part = .call returnType args before name params) (whole : Whole e.pieces)
      (typed : ∀ t ∈ returnType :: args, Typed t) (named : Named before name (params ++ e.comment))
      (inside : ∀ o ∈ stack.head?, 0 ≤ o.depth + net (statement [] e.pieces))
      (rest : Regular (settle (net (statement [] e.pieces)) stack) [] es) : Regular stack [] (e :: es)
  | event {stack : List Enclosing} {e : Element} {es : List Element} (before name params : Text)
      (part : e.part = .event before name params) (whole : Whole e.pieces)
      (named : Named before name (params ++ e.comment))
      (inside : ∀ o ∈ stack.head?, 0 ≤ o.depth + net (statement [] e.pieces))
      (rest : Regular (settle (net (statement [] e.pieces)) stack) [] es) : Regular stack [] (e :: es)
  /-- Anything else that ends a statement closes no scope. -/
  | other {stack : List Enclosing} {q : List Text} {e : Element} {es : List Element} (text : Text)
      (part : e.part = .other text) (whole : Whole e.pieces) (quiet : Quiet (statement q e.pieces))
      (inside : ∀ o ∈ stack.head?, 0 ≤ o.depth + net (statement q e.pieces))
      (rest : Regular (settle (net (statement q e.pieces)) stack) [] es) : Regular stack q (e :: es)
  /-- Or ends none. -/
  | unended {stack : List Enclosing} {q : List Text} {e : Element} {es : List Element} (text : Text)
      (part : e.part = .other text) (goes_on : ∀ piece ∈ e.pieces, ended piece = false)
      (rest : Regular stack (q ++ e.pieces) es) : Regular stack q (e :: es)

variable {q pieces lst : List Text} {piece v : Text} {e : Element} {stack : List Enclosing}
variable {s : Symbols} {o : Enclosing}

/-! ## From lines to statements -/

theorem ns_of_passed (there : passed piece = true) : ns piece ≠ [] ∧ (ns piece).head? ≠ some ' ' := by
  have nonempty : ns piece ≠ [] := by
    unfold passed at there
    simp only [ne_eq, Bool.and_eq_true, decide_eq_true_eq] at there
    exact there.1
  refine ⟨nonempty, ?_⟩
  unfold ns at nonempty ⊢
  cases word : piece.dropWhile isspace with
  | nil =>
    rw [word] at nonempty
    exact absurd rfl nonempty
  | cons c rest =>
    have other : isspace c = false := by
      have first := List.head?_dropWhile_not isspace piece
      rw [word] at first
      simpa using first
    have kept : c ≠ '\n' := by
      rintro rfl
      exact absurd other (by decide)
    rw [List.filter_cons_of_pos (by simpa using kept), List.head?_cons, ne_eq, Option.some.injEq]
    rintro rfl
    exact absurd other (by decide)

theorem flatMap_space (nonempty : pieces ≠ []) :
    pieces.flatMap (' ' :: ·) = ' ' :: [' '].intercalate pieces := by
  induction pieces with
  | nil => exact absurd rfl nonempty
  | cons piece pieces ih =>
    cases pieces with
    | nil => simp
    | cons next rest =>
      rw [List.flatMap_cons, ih (List.cons_ne_nil _ _),
        List.intercalate_cons_of_ne_nil (List.cons_ne_nil _ _), List.append_assoc]
      rfl

/-- The blanks in front of the first piece go. -/
theorem dropWhile_space (nonempty : pieces ≠ [])
    (words : ∀ piece ∈ pieces, piece ≠ [] ∧ piece.head? ≠ some ' ') :
    (pieces.flatMap (' ' :: ·)).dropWhile (· = ' ') = [' '].intercalate pieces := by
  rw [flatMap_space nonempty, List.dropWhile_cons_of_pos (by simp)]
  obtain ⟨piece, pieces, rfl⟩ := List.exists_cons_of_ne_nil nonempty
  obtain ⟨word, other⟩ := words piece List.mem_cons_self
  obtain ⟨c, piece, rfl⟩ := List.exists_cons_of_ne_nil word
  have differs : c ≠ ' ' := by
    rintro rfl
    exact other rfl
  cases pieces with
  | nil =>
    rw [List.intercalate_singleton, List.dropWhile_cons_of_neg (by simpa using differs)]
  | cons next rest =>
    rw [List.intercalate_cons_of_ne_nil (List.cons_ne_nil _ _), List.append_assoc, List.cons_append,
      List.dropWhile_cons_of_neg (by simpa using differs)]

/-- The loop makes statements of the lines that are passed. -/
theorem joinLines_eq (words : ∀ piece ∈ q, piece ≠ [] ∧ piece.head? ≠ some ' ') :
    joinLines (q.flatMap (' ' :: ·)) lst = statements q ((lst.filter passed).map ns) := by
  induction lst generalizing q with
  | nil => rfl
  | cons line lst ih =>
    rw [joinLines]
    cases there : passed line with
    | false =>
      rw [List.filter_cons_of_neg (by rw [there]; exact Bool.noConfusion)]
      exact ih words
    | true =>
      have longer : ∀ piece ∈ q ++ [ns line], piece ≠ [] ∧ piece.head? ≠ some ' ' :=
        List.forall_mem_append.mpr ⟨words, List.forall_mem_singleton.mpr (ns_of_passed there)⟩
      have joined : q.flatMap (' ' :: ·) ++ ' ' :: ns line = (q ++ [ns line]).flatMap (' ' :: ·) := by
        rw [List.flatMap_append, List.flatMap_singleton]
      rw [List.filter_cons_of_pos there, List.map_cons, statements, if_pos rfl, joined]
      split
      · rw [dropWhile_space (by simp) longer]
        exact congrArg (List.cons _) (ih fun piece member => absurd member List.not_mem_nil)
      · exact ih longer

theorem cleanFiles_eq (compdef : List Text) (h : HeaderText) :
    cleanFiles compdef h.lst = statements [] (h.elements.flatMap Element.pieces) := by
  have looked : ((cleanScan compdef h.lst).filter Prod.snd).map Prod.fst = h.lst := by
    rw [cleanScan, scan_harmless h.lines, List.filter_eq_self.mpr, map_fst_map_true]
    intro line member
    obtain ⟨l, -, rfl⟩ := List.mem_map.mp member
    rfl
  rw [cleanFiles, looked, ← h.laid_out]
  exact joinLines_eq (q := []) fun piece member => absurd member List.not_mem_nil

theorem statements_append {front : List Text} (open_ended : ∀ piece ∈ front, ended piece = false) :
    statements q (front ++ pieces) = statements (q ++ front) pieces := by
  induction front generalizing q with
  | nil => rw [List.nil_append, List.append_nil]
  | cons piece front ih =>
    obtain ⟨here, open_ended⟩ := List.forall_mem_cons.mp open_ended
    rw [List.cons_append, statements, if_neg (by rw [here]; exact Bool.noConfusion), ih open_ended,
      List.append_assoc]
    rfl

/-- The last of the lines ends the statement that they belong to. -/
theorem statements_whole (whole : Whole pieces) (rest : List Text) :
    statements q (pieces ++ rest) = statement q pieces :: statements [] rest := by
  obtain ⟨unbroken, last⟩ := whole
  rcases List.eq_nil_or_concat' pieces with rfl | ⟨front, piece, rfl⟩
  · exact absurd last (by decide)
  · rw [List.dropLast_concat] at unbroken
    rw [List.getLast?_concat, Option.any_some] at last
    rw [List.append_assoc, statements_append unbroken, List.singleton_append, statements, if_pos last,
      List.append_assoc]
    rfl

/-! ## The scopes -/

/-- The script has the scopes as they are. -/
structure Tracks (stack : List Enclosing) (s : Symbols) : Prop where
  fPrefix : s.fPrefix = (stack.map Enclosing.name).reverse
  apart : (stack.map Enclosing.name).Nodup
  words : ∀ o ∈ stack, o.name ≠ []
  counts : ∀ o ∈ stack, s.oc o.name = 1 + o.depth
  depths : ∀ o ∈ stack, 0 ≤ o.depth
  scope : ∀ o ∈ stack.head?, s.scope = o.name

theorem readScope_other (calm : startsScope v = false) (word : s.scope ≠ []) : s.readScope v =
    if s.oc s.scope + net v = 0 ∧ s.fPrefix ≠ [] then
      some { s with
        oc := Function.update s.oc s.scope (s.oc s.scope + net v)
        fPrefix := s.fPrefix.dropLast
        scope := s.fPrefix.dropLast.getLast?.getD s.scope }
    else some { s with oc := Function.update s.oc s.scope (s.oc s.scope + net v) } := by
  rw [Symbols.readScope, if_neg (by rw [calm]; exact Bool.noConfusion), if_neg word]

/-- The counts of the scopes around it are not touched. -/
theorem counts_update {n : Int} (tracks : Tracks (o :: stack) s) :
    ∀ p ∈ stack, Function.update s.oc o.name n p.name = 1 + p.depth := by
  intro p member
  have differs : p.name ≠ o.name := by
    intro same
    exact (List.nodup_cons.mp tracks.apart).1 (same ▸ List.mem_map_of_mem member)
  rw [Function.update_of_ne differs, tracks.counts p (List.mem_cons_of_mem o member)]

/-- A statement that closes no scope changes the count of the innermost one. -/
theorem Tracks.settle (tracks : Tracks stack s) (calm : startsScope v = false)
    (inside : ∀ o ∈ stack.head?, 0 ≤ o.depth + net v) :
    ∃ s', s.readScope v = some s' ∧ Tracks (settle (net v) stack) s' ∧ s'.found = s.found ∧
      s'.fPrefix = s.fPrefix := by
  cases stack with
  | nil =>
    have none_open : s.fPrefix = [] := tracks.fPrefix
    by_cases word : s.scope = []
    · refine ⟨s, ?_, tracks, rfl, rfl⟩
      rw [Symbols.readScope, if_neg (by rw [calm]; exact Bool.noConfusion), if_pos word]
    · refine ⟨_, (readScope_other calm word).trans (if_neg fun both => both.2 none_open), ?_, rfl, rfl⟩
      exact ⟨none_open, tracks.apart, tracks.words, fun o member => absurd member List.not_mem_nil,
        tracks.depths, fun o member => nomatch member⟩
  | cons o stack =>
    have here := tracks.scope o rfl
    have word : s.scope ≠ [] := here ▸ tracks.words o List.mem_cons_self
    have count : s.oc s.scope = 1 + o.depth := here ▸ tracks.counts o List.mem_cons_self
    have positive := inside o rfl
    refine ⟨_, (readScope_other calm word).trans (if_neg fun both => ?_), ?_, rfl, rfl⟩
    · have zero := both.1
      omega
    · refine ⟨tracks.fPrefix, tracks.apart, List.forall_mem_cons.mpr ⟨tracks.words o List.mem_cons_self,
        fun p member => tracks.words p (List.mem_cons_of_mem o member)⟩, ?_, ?_, ?_⟩
      · refine List.forall_mem_cons.mpr ⟨?_, ?_⟩
        · change Function.update s.oc s.scope _ o.name = 1 + (o.depth + net v)
          rw [here, Function.update_self, ← here, count]
          omega
        · rw [here]
          exact counts_update tracks
      · exact List.forall_mem_cons.mpr ⟨positive, fun p member =>
          tracks.depths p (List.mem_cons_of_mem o member)⟩
      · intro p first
        obtain rfl := Option.some.inj first
        exact here

/-- Where the scopes are, what was found does not say. -/
theorem Tracks.finding (tracks : Tracks stack s) (found : Header) :
    Tracks stack { s with found } :=
  ⟨tracks.fPrefix, tracks.apart, tracks.words, tracks.counts, tracks.depths, tracks.scope⟩

/-- The last brace of a scope closes it. -/
theorem Tracks.closing {name : Text} (tracks : Tracks (⟨name, 0⟩ :: stack) s)
    (calm : startsScope v = false) (closes : net v = -1) :
    ∃ s', s.readScope v = some s' ∧ Tracks stack s' ∧ s'.found = s.found := by
  have here := tracks.scope ⟨name, 0⟩ rfl
  have word : s.scope ≠ [] := here ▸ tracks.words ⟨name, 0⟩ List.mem_cons_self
  have count : s.oc s.scope = 1 + 0 := here ▸ tracks.counts ⟨name, 0⟩ List.mem_cons_self
  have scopes : s.fPrefix = (stack.map Enclosing.name).reverse ++ [name] := by
    rw [tracks.fPrefix, List.map_cons, List.reverse_cons]
  have some_open : s.fPrefix ≠ [] := by
    rw [scopes]
    exact List.append_ne_nil_of_right_ne_nil _ (List.cons_ne_nil _ _)
  have rest : s.fPrefix.dropLast = (stack.map Enclosing.name).reverse := by
    rw [scopes, List.dropLast_concat]
  have closed : s.oc s.scope + net v = 0 ∧ s.fPrefix ≠ [] := ⟨by omega, some_open⟩
  refine ⟨_, (readScope_other calm word).trans (if_pos closed), ?_, rfl⟩
  refine ⟨rest, (List.nodup_cons.mp tracks.apart).2,
    fun p member => tracks.words p (List.mem_cons_of_mem _ member), ?_,
    fun p member => tracks.depths p (List.mem_cons_of_mem _ member), ?_⟩
  · rw [here]
    exact counts_update tracks
  · intro p first
    change s.fPrefix.dropLast.getLast?.getD s.scope = p.name
    rw [rest, List.getLast?_reverse, List.head?_map, Option.mem_def.mp first]
    rfl

/-- A block is entered under its name. -/
theorem Tracks.opening {before name : Text} (tracks : Tracks stack s) (kind : Kind)
    (space : before.getLast? = some ' ') (word : name ≠ [] ∧ ' ' ∉ name)
    (other : ∀ o ∈ stack, o.name ≠ name) :
    ∃ s', s.readScope ((Part.opening kind before name [' ']).text) = some s' ∧
      Tracks (⟨name, 0⟩ :: stack) s' ∧ s'.found = s.found := by
  have starts : startsScope (Part.opening kind before name [' ']).text = true := by
    cases kind <;> rfl
  have split : (Part.opening kind before name [' ']).text =
      (kind.word ++ before.dropLast) ++ ' ' :: (name ++ ' ' :: ['{']) := by
    conv_lhs => rw [← List.dropLast_append_getLast? ' ' space]
    simp [Part.text]
  have scope : secondLast ((Part.opening kind before name [' ']).text.splitOn ' ') = some name := by
    have words : (name ++ ' ' :: ['{']).splitOn ' ' = [name] ++ [['{']] := by
      rw [List.splitOn_append_cons_self_of_not_mem word.2]
      rfl
    rw [split, List.splitOn_append_cons_self, words, ← List.append_assoc, secondLast,
      List.dropLast_concat, List.getLast?_concat]
  refine ⟨{ s with fPrefix := s.fPrefix ++ [name], oc := Function.update s.oc name 1, scope := name },
    ?_, ?_, rfl⟩
  · rw [Symbols.readScope, if_pos starts, scope]
    rfl
  · refine ⟨?_, ?_, List.forall_mem_cons.mpr ⟨word.1, tracks.words⟩, ?_,
      List.forall_mem_cons.mpr ⟨Int.le_refl 0, tracks.depths⟩, ?_⟩
    · rw [List.map_cons, List.reverse_cons, ← tracks.fPrefix]
    · refine List.nodup_cons.mpr ⟨fun member => ?_, tracks.apart⟩
      obtain ⟨o, there, same⟩ := List.mem_map.mp member
      exact other o there same
    · refine List.forall_mem_cons.mpr ⟨Function.update_self _ _ _, fun p member => ?_⟩
      exact (Function.update_of_ne (other p member) _ _).trans (tracks.counts p member)
    · intro p first
      obtain rfl := Option.some.inj first
      rfl

/-! ## The declarations -/

theorem funcName_eq {before name behind : Text} (named : Named before name behind) (front : Text) :
    funcName (front ++ before ++ name ++ '(' :: behind) = some name := by
  have split : front ++ before ++ name = front ++ before.dropLast ++ ' ' :: name := by
    conv_lhs => rw [← List.dropLast_append_getLast? ' ' named.before]
    simp
  have single : '(' ∉ ' ' :: name := by
    rw [List.mem_cons]
    exact not_or.mpr ⟨by decide, named.name.2⟩
  obtain ⟨parts, last, pieces⟩ := splitOn_append_of_not_mem (front ++ before.dropLast) single
  have whole : (front ++ before ++ name ++ '(' :: behind).splitOn '(' =
      parts ++ [last ++ ' ' :: name] ++ [behind] := by
    rw [split, List.splitOn_append_cons_self, pieces, List.splitOn_eq_singleton named.behind]
  have words : (last ++ ' ' :: name).splitOn ' ' = last.splitOn ' ' ++ [name] := by
    rw [List.splitOn_append_cons_self, List.splitOn_eq_singleton named.name.1]
  have part : secondLast (parts ++ [last ++ ' ' :: name] ++ [behind]) = some (last ++ ' ' :: name) := by
    rw [secondLast, List.dropLast_concat, List.getLast?_concat]
  rw [funcName, whole, part]
  change ((last ++ ' ' :: name).splitOn ' ').getLast? = _
  rw [words, List.getLast?_concat]

theorem firstParens_eq {types : Text} (absent : ')' ∉ types) (rest : Text) :
    firstParens (token_call ++ '(' :: types ++ ')' :: rest) = some types := by
  have split : token_call ++ '(' :: types ++ ')' :: rest =
      token_call ++ '(' :: (types ++ ')' :: rest) := by
    simp
  rw [split, firstParens, seek_char (by decide)]
  change (seek [')'].isPrefixOf (types ++ ')' :: rest)).bind _ = _
  rw [seek_char absent]
  rfl

theorem statement_nil (formed : e.Formed) : statement [] e.pieces = e.part.text ++ e.comment := formed

/-- The script finds what the parts declare. -/
def Finds (s : Symbols) (data : List Text) (parts : List Part) : Prop :=
  ∃ s', data.foldlM Symbols.readLine s = some s' ∧
    s'.found.declarations = s.found.declarations ++ within Part.declarations s.fPrefix parts ∧
    s'.found.events = s.found.events ++ within Part.events s.fPrefix parts

/-- A statement tells what its part declares, and the rest follows. -/
theorem Finds.cons {s' : Symbols} {data : List Text} {part : Part} {parts : List Part}
    (read : s.readLine v = some s') (scopes : s'.fPrefix = part.enter s.fPrefix)
    (declarations : s'.found.declarations = s.found.declarations ++ part.declarations s.fPrefix)
    (events : s'.found.events = s.found.events ++ part.events s.fPrefix)
    (rest : Finds s' data parts) : Finds s (v :: data) (part :: parts) := by
  obtain ⟨last, run, found, seen⟩ := rest
  refine ⟨last, ?_, ?_, ?_⟩
  · rw [List.foldlM_cons, read]
    exact run
  · rw [found, declarations, scopes, List.append_assoc]
    rfl
  · rw [seen, events, scopes, List.append_assoc]
    rfl

/-- A part that registers nothing leaves what was found. -/
theorem Finds.unregistered {s' : Symbols} {data : List Text} {part : Part} {parts : List Part}
    (read : s.readLine v = some s') (scopes : s'.fPrefix = part.enter s.fPrefix)
    (found : s'.found = s.found)
    (silent : part.declarations s.fPrefix = [] ∧ part.events s.fPrefix = [])
    (rest : Finds s' data parts) : Finds s (v :: data) (part :: parts) := by
  refine Finds.cons read scopes ?_ ?_ rest
  · rw [found, silent.1, List.append_nil]
  · rw [found, silent.2, List.append_nil]

theorem readLine_token {s' t : Symbols} (read : s.readScope v = some s')
    (token : s'.readToken v = some t) : s.readLine v = some t := by
  rw [Symbols.readLine, read]
  exact token

theorem readLine_quiet {s' : Symbols} (read : s.readScope v = some s')
    (call : token_call.isPrefixOf v = false) (evt : token_evt.isPrefixOf v = false) :
    s.readLine v = some s' := by
  refine readLine_token read ?_
  rw [Symbols.readToken, if_neg (by rw [call]; exact Bool.noConfusion),
    if_neg (by rw [evt]; exact Bool.noConfusion)]

theorem within_others {α : Type} {tells : List Text → Part → List α}
    (silent : ∀ scopes text, tells scopes (.other text) = []) {behind : List Element}
    (others : ∀ b ∈ behind, ∃ text, b.part = .other text) (scopes : List Text) (parts : List Part) :
    within tells scopes (behind.map Element.part ++ parts) = within tells scopes parts := by
  induction behind with
  | nil => rfl
  | cons b behind ih =>
    obtain ⟨⟨text, part⟩, others⟩ := List.forall_mem_cons.mp others
    rw [List.map_cons, List.cons_append, within, part, silent, List.nil_append]
    exact ih others

/-- Members tell nothing. -/
theorem Finds.others {data : List Text} {behind : List Element} {parts : List Part}
    (others : ∀ b ∈ behind, ∃ text, b.part = .other text) (rest : Finds s data parts) :
    Finds s data (behind.map Element.part ++ parts) := by
  obtain ⟨last, run, found, seen⟩ := rest
  refine ⟨last, run, ?_, ?_⟩
  · rwa [within_others (fun _ _ => rfl) others]
  · rwa [within_others (fun _ _ => rfl) others]

theorem types_closed {ts : List Text} (closed : ∀ t ∈ ts, ')' ∉ t) : ')' ∉ [','].intercalate ts := by
  induction ts with
  | nil => exact List.not_mem_nil
  | cons t ts ih =>
    obtain ⟨here, closed⟩ := List.forall_mem_cons.mp closed
    cases ts with
    | nil => rwa [List.intercalate_singleton]
    | cons u us =>
      rw [List.intercalate_cons_of_ne_nil (List.cons_ne_nil _ _), List.mem_append, List.mem_append]
      exact not_or.mpr ⟨not_or.mpr ⟨here, by decide⟩, ih closed⟩

/-- A registered function is declared in the scopes that the script has. -/
theorem readToken_call {returnType : Text} {args : List Text} {before name params comment : Text}
    (typed : ∀ t ∈ returnType :: args, Typed t) (named : Named before name (params ++ comment))
    (s : Symbols) :
    s.readToken ((Part.call returnType args before name params).text ++ comment) =
      some { s with found := { s.found with
        declarations := s.found.declarations ++
          [declare (qualified s.fPrefix name) ((returnType :: args).map strip)] } } := by
  have nameText : (Part.call returnType args before name params).text ++ comment =
      (token_call ++ '(' :: [','].intercalate (returnType :: args) ++ [')']) ++ before ++ name ++
        '(' :: (params ++ comment) := by
    simp [Part.text]
  have typeText : (Part.call returnType args before name params).text ++ comment =
      token_call ++ '(' :: [','].intercalate (returnType :: args) ++
        ')' :: (before ++ name ++ '(' :: (params ++ comment)) := by
    simp [Part.text]
  have starts : token_call.isPrefixOf ((Part.call returnType args before name params).text ++ comment) =
      true := by
    rw [List.isPrefixOf_iff_prefix, typeText, List.append_assoc]
    exact List.prefix_append _ _
  have read_name : funcName ((Part.call returnType args before name params).text ++ comment) =
      some name := by
    rw [nameText]
    exact funcName_eq named _
  have read_types : firstParens ((Part.call returnType args before name params).text ++ comment) =
      some ([','].intercalate (returnType :: args)) := by
    rw [typeText]
    exact firstParens_eq (types_closed fun t member => (typed t member).parenthesis) _
  have split : ([','].intercalate (returnType :: args)).splitOn ',' = returnType :: args :=
    List.splitOn_intercalate ',' (fun t member => (typed t member).comma) (List.cons_ne_nil _ _)
  rw [Symbols.readToken, if_pos starts, read_name, read_types]
  change some _ = some _
  rw [split]

/-- So is a registered event. -/
theorem readToken_event {before name params comment : Text}
    (named : Named before name (params ++ comment)) (s : Symbols) :
    s.readToken ((Part.event before name params).text ++ comment) =
      some { s with found := { s.found with events := s.found.events ++ [qualified s.fPrefix name] } } := by
  have text : (Part.event before name params).text ++ comment =
      token_evt ++ before ++ name ++ '(' :: (params ++ comment) := by
    simp [Part.text]
  have other : token_call.isPrefixOf ((Part.event before name params).text ++ comment) = false := rfl
  have starts : token_evt.isPrefixOf ((Part.event before name params).text ++ comment) = true := by
    rw [List.isPrefixOf_iff_prefix, text]
    simp only [List.append_assoc]
    exact List.prefix_append _ _
  have read_name : funcName ((Part.event before name params).text ++ comment) = some name := by
    rw [text]
    exact funcName_eq named token_evt
  rw [Symbols.readToken, if_neg (by rw [other]; exact Bool.noConfusion), if_pos starts, read_name]
  rfl

theorem readScope_idle (idle : Idle v) (s : Symbols) :
    ∃ s', s.readScope v = some s' ∧ s'.found = s.found := by
  rw [Symbols.readScope]
  split_ifs with starts word
  · obtain ⟨front, rest, rfl⟩ := List.append_of_mem (idle.scope starts)
    have words := List.splitOn_append_cons_self (a := ' ') front rest
    have some_there : ((front ++ ' ' :: rest).splitOn ' ').dropLast ≠ [] := by
      rw [words, List.dropLast_append_of_ne_nil (List.splitOn_ne_nil _ _)]
      exact List.append_ne_nil_of_left_ne_nil (List.splitOn_ne_nil _ _) _
    rw [secondLast, List.getLast?_eq_some_getLast some_there]
    exact ⟨_, rfl, rfl⟩
  · exact ⟨s, rfl, rfl⟩
  · dsimp only
    split_ifs
    · exact ⟨_, rfl, rfl⟩
    · exact ⟨_, rfl, rfl⟩

/-- Where nothing is registered nothing is found, whatever the scopes are taken for. -/
theorem finds_nothing {data : List Text} {es : List Element}
    (unregistered : ∀ e ∈ es, ∀ scopes, e.part.declarations scopes = [] ∧ e.part.events scopes = [])
    (idle : ∀ v ∈ data, Idle v) : Finds s data (es.map Element.part) := by
  have silent : ∀ scopes, within Part.declarations scopes (es.map Element.part) = [] ∧
      within Part.events scopes (es.map Element.part) = [] := by
    clear idle
    induction es with
    | nil => exact fun scopes => ⟨rfl, rfl⟩
    | cons e es ih =>
      obtain ⟨here, others⟩ := List.forall_mem_cons.mp unregistered
      intro scopes
      obtain ⟨declarations, events⟩ := ih others (e.part.enter scopes)
      rw [List.map_cons, within, within, (here scopes).1, (here scopes).2, declarations, events]
      exact ⟨rfl, rfl⟩
  have run : ∀ s : Symbols, ∃ s', data.foldlM Symbols.readLine s = some s' ∧ s'.found = s.found := by
    clear silent unregistered
    induction data with
    | nil => exact fun s => ⟨s, rfl, rfl⟩
    | cons v data ih =>
      obtain ⟨here, others⟩ := List.forall_mem_cons.mp idle
      intro s
      obtain ⟨s', read, same⟩ := readScope_idle here s
      obtain ⟨last, rest, found⟩ := ih others s'
      refine ⟨last, ?_, found.trans same⟩
      rw [List.foldlM_cons, readLine_quiet read here.call here.evt]
      exact rest
  obtain ⟨last, all, found⟩ := run s
  obtain ⟨declarations, events⟩ := silent s.fPrefix
  exact ⟨last, all, by rw [found, declarations, List.append_nil], by rw [found, events, List.append_nil]⟩

/-- **In a regular header every declaration is found.** -/
theorem Regular.finds {es : List Element} (regular : Regular stack q es)
    (formed : ∀ e ∈ es, e.Formed) (tracks : Tracks stack s) :
    Finds s (statements q (es.flatMap Element.pieces)) (es.map Element.part) := by
  induction regular generalizing s with
  | done stack q es unregistered idle => exact finds_nothing unregistered idle
  | @opening stack e es kind before name part comment whole space word other rest ih =>
    obtain ⟨here, formed⟩ := List.forall_mem_cons.mp formed
    obtain ⟨s', read, tracks', found⟩ := tracks.opening kind space word other
    have scopes : s'.fPrefix = s.fPrefix ++ [name] := by
      rw [tracks'.fPrefix, tracks.fPrefix, List.map_cons, List.reverse_cons]
    have text : statement [] e.pieces = (Part.opening kind before name [' ']).text := by
      rw [statement_nil here, comment, List.append_nil, part]
    have line : s.readLine (statement [] e.pieces) = some s' := by
      rw [text]
      exact readLine_quiet read (by cases kind <;> rfl) (by cases kind <;> rfl)
    rw [List.flatMap_cons, statements_whole whole, List.map_cons, part]
    exact Finds.unregistered line scopes found ⟨rfl, rfl⟩ (ih formed tracks')
  | @closing stack q e es name semicolon behind part others whole quiet closes rest ih =>
    obtain ⟨here, formed⟩ := List.forall_mem_cons.mp formed
    obtain ⟨s', read, tracks', found⟩ := tracks.closing quiet.scope closes
    have scopes : s'.fPrefix = s.fPrefix.dropLast := by
      rw [tracks'.fPrefix, tracks.fPrefix, List.map_cons, List.reverse_cons, List.dropLast_concat]
    have line := readLine_quiet read quiet.call quiet.evt
    rw [← List.cons_append, List.flatMap_append, statements_whole whole, List.cons_append,
      List.map_cons, List.map_append, part]
    exact Finds.unregistered line scopes found ⟨rfl, rfl⟩
      (Finds.others others (ih (List.forall_mem_append.mp formed).2 tracks'))
  | @call stack e es returnType args before name params part whole typed named inside rest ih =>
    obtain ⟨here, formed⟩ := List.forall_mem_cons.mp formed
    have text : statement [] e.pieces =
        (Part.call returnType args before name params).text ++ e.comment := by
      rw [statement_nil here, part]
    have calm : startsScope (statement [] e.pieces) = false := by
      rw [text]
      rfl
    obtain ⟨s', read, tracks', found, scopes⟩ := tracks.settle calm inside
    have token := readToken_call typed named s'
    rw [← text] at token
    rw [List.flatMap_cons, statements_whole whole, List.map_cons, part]
    refine Finds.cons (readLine_token read token) scopes ?_ ?_ (ih formed (tracks'.finding _))
    · rw [← found, ← scopes]
      rfl
    · rw [← found]
      exact (List.append_nil _).symm
  | @event stack e es before name params part whole named inside rest ih =>
    obtain ⟨here, formed⟩ := List.forall_mem_cons.mp formed
    have text : statement [] e.pieces = (Part.event before name params).text ++ e.comment := by
      rw [statement_nil here, part]
    have calm : startsScope (statement [] e.pieces) = false := by
      rw [text]
      rfl
    obtain ⟨s', read, tracks', found, scopes⟩ := tracks.settle calm inside
    have token := readToken_event named s'
    rw [← text] at token
    rw [List.flatMap_cons, statements_whole whole, List.map_cons, part]
    refine Finds.cons (readLine_token read token) scopes ?_ ?_ (ih formed (tracks'.finding _))
    · rw [← found]
      exact (List.append_nil _).symm
    · rw [← found, ← scopes]
      rfl
  | @other stack q e es text part whole quiet inside rest ih =>
    obtain ⟨here, formed⟩ := List.forall_mem_cons.mp formed
    obtain ⟨s', read, tracks', found, scopes⟩ := tracks.settle quiet.scope inside
    have line := readLine_quiet read quiet.call quiet.evt
    rw [List.flatMap_cons, statements_whole whole, List.map_cons, part]
    exact Finds.unregistered line scopes found ⟨rfl, rfl⟩ (ih formed tracks')
  | @unended stack q e es text part goes_on rest ih =>
    obtain ⟨here, formed⟩ := List.forall_mem_cons.mp formed
    rw [List.flatMap_cons, statements_append goes_on, List.map_cons, part]
    exact ih formed tracks

/-- A class with an access specifier, comments and an inline function, a registered function and a
registered event. -/
def stageElements : List Element :=
  [⟨.opening .Namespace " ".toList "A".toList " ".toList, [], ["namespace A".toList, "\x7b".toList]⟩,
    ⟨.opening .Class " DCS_API ".toList "B".toList " ".toList, [],
      ["class DCS_API B".toList, "\x7b".toList]⟩,
    ⟨.other "public:".toList, [], ["public:".toList]⟩,
    ⟨.other "int x;".toList, " ///< c".toList, ["int x; ///< c".toList]⟩,
    ⟨.other "void g() \x7b".toList, [], ["void g()".toList, "\x7b".toList]⟩,
    ⟨.other "x = 1;".toList, [], ["x = 1;".toList]⟩,
    ⟨.other "\x7d".toList, [], ["\x7d".toList]⟩,
    ⟨.closing true, " // B".toList, ["\x7d; // B".toList]⟩,
    ⟨.other "int y;".toList, [], ["int y;".toList]⟩,
    ⟨.call "void".toList [" DCS::u16".toList] " DCS_API void ".toList "f".toList "u16 n);".toList, [],
      ["DCS_REGISTER_CALL(void, DCS::u16)".toList, "DCS_API void f(u16 n);".toList]⟩,
    ⟨.event " DCS_API void ".toList "Evt".toList ");".toList, [],
      ["DCS_REGISTER_EVENT".toList, "DCS_API void Evt();".toList]⟩,
    ⟨.closing false, [], ["\x7d".toList]⟩]

def stageLines : List Text :=
  ["#pragma once\n", "namespace A\n", "\x7b\n", "\t/// doc;\n", "\tclass DCS_API B\n", "\t\x7b\n",
    "\tpublic:\n", "\t\tint x; ///< c\n", "\t\tvoid g()\n", "\t\t\x7b\n", "\t\t\tx = 1;\n",
    "\t\t\x7d\n", "\t\x7d; // B\n", "\n", "\tint y;\n", "\tDCS_REGISTER_CALL(void, DCS::u16)\n",
    "\tDCS_API void f(u16 n);\n", "\tDCS_REGISTER_EVENT\n", "\tDCS_API void Evt();\n",
    "\x7d\n"].map String.toList

theorem stage_formed : ∀ e ∈ stageElements, e.Formed := by decide

theorem stage_lines : ∀ l ∈ stageLines, l ≠ [] ∧ isBlock l = false := by decide

theorem stage_laid_out : (stageLines.filter passed).map ns = stageElements.flatMap Element.pieces := by
  decide

def stageHeader : HeaderText where
  lst := stageLines
  elements := stageElements
  formed := stage_formed
  lines := stage_lines
  laid_out := stage_laid_out

theorem stage_regular : Regular [] [] stageElements := by
  have typed : ∀ t ∈ ["void".toList, " DCS::u16".toList], Typed t :=
    List.forall_mem_cons.mpr ⟨⟨by decide, by decide⟩,
      List.forall_mem_singleton.mpr ⟨by decide, by decide⟩⟩
  refine .opening .Namespace " ".toList "A".toList rfl rfl ⟨by decide, by decide⟩ rfl (by decide)
    (by decide) ?_
  refine .opening .Class " DCS_API ".toList "B".toList rfl rfl ⟨by decide, by decide⟩ rfl (by decide)
    (by decide) ?_
  refine .unended "public:".toList rfl (by decide) ?_
  refine .unended "int x;".toList rfl (by decide) ?_
  refine .other "void g() \x7b".toList rfl ⟨by decide, by decide⟩ ⟨by decide, by decide, by decide⟩
    (by decide) ?_
  refine .other "x = 1;".toList rfl ⟨by decide, by decide⟩ ⟨by decide, by decide, by decide⟩
    (by decide) ?_
  refine .other "\x7d".toList rfl ⟨by decide, by decide⟩ ⟨by decide, by decide, by decide⟩ (by decide) ?_
  refine .closing "B".toList true [⟨.other "int y;".toList, [], ["int y;".toList]⟩] rfl
    (List.forall_mem_singleton.mpr ⟨_, rfl⟩) ⟨by decide, by decide⟩ ⟨by decide, by decide, by decide⟩
    (by decide) ?_
  refine .call "void".toList [" DCS::u16".toList] " DCS_API void ".toList "f".toList "u16 n);".toList rfl
    ⟨by decide, by decide⟩ typed ⟨rfl, by decide, by decide⟩ (by decide) ?_
  refine .event " DCS_API void ".toList "Evt".toList ");".toList rfl ⟨by decide, by decide⟩
    ⟨rfl, by decide, by decide⟩ (by decide) ?_
  refine .closing "A".toList false [] rfl (fun b member => absurd member List.not_mem_nil)
    ⟨by decide, by decide⟩ ⟨by decide, by decide, by decide⟩ (by decide) ?_
  exact .done [] [] [] (fun e member => absurd member List.not_mem_nil)
    fun v member => absurd member List.not_mem_nil

/-- A forward declaration in front of a registered function. -/
def forwardElements : List Element :=
  [⟨.opening .Namespace " ".toList "A".toList " ".toList, [], ["namespace A".toList, "\x7b".toList]⟩,
    ⟨.other "class B;".toList, [], ["class B;".toList]⟩,
    ⟨.call "void".toList [] " DCS_API void ".toList "f".toList ");".toList, [],
      ["DCS_REGISTER_CALL(void)".toList, "DCS_API void f();".toList]⟩,
    ⟨.closing false, [], ["\x7d".toList]⟩]

def forwardLines : List Text :=
  ["namespace A\n", "\x7b\n", "\tclass B;\n", "\tDCS_REGISTER_CALL(void)\n", "\tDCS_API void f();\n",
    "\x7d\n"].map String.toList

theorem forward_formed : ∀ e ∈ forwardElements, e.Formed := by decide

theorem forward_lines : ∀ l ∈ forwardLines, l ≠ [] ∧ isBlock l = false := by decide

theorem forward_laid_out : (forwardLines.filter passed).map ns = forwardElements.flatMap Element.pieces := by
  decide

def forwardHeader : HeaderText where
  lst := forwardLines
  elements := forwardElements
  formed := forward_formed
  lines := forward_lines
  laid_out := forward_laid_out

end DCScan.Scanner
