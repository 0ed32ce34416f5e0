/-
# Grammars in the notation GBNF

A grammar is a text: rules, each on a line of its own, that give a name to alternatives of
sequences of literals, classes of characters, names of other rules and groups, which may be
repeated. `read` takes such a text to its rules, and `Derives` is what they derive.

The text is read character by character into tokens, and token by token into rules. Both readers
keep what they need in a state, so a text can be read piece by piece.
-/

import Mathlib.Data.List.Infix
import Mathlib.Data.Nat.Notation
import Mathlib.Data.Set.List
import Mathlib.Tactic.SplitIfs

namespace Gbnf

/-! ## Rules and what they derive -/

/-- A class of characters: ranges, or all others. -/
structure Letters where
  negated : Bool
  ranges : List (Char × Char)
  deriving DecidableEq

def Letters.has (letters : Letters) (c : Char) : Bool :=
  (letters.ranges.any fun range => range.1 ≤ c && c ≤ range.2) != letters.negated

/-- A class of single characters. -/
theorem Letters.has_singles (negated : Bool) (letters : List Char) (c : Char) :
    Letters.has ⟨negated, letters.map fun d => (d, d)⟩ c = (decide (c ∈ letters) != negated) := by
  have hany : (letters.map fun d => (d, d)).any (fun range => range.1 ≤ c && c ≤ range.2) =
      decide (c ∈ letters) := by
    apply Bool.eq_iff_iff.mpr
    simp only [List.any_map, List.any_eq_true, Function.comp_apply, Bool.and_eq_true,
      decide_eq_true_eq]
    constructor
    · rintro ⟨d, hd, hle, hge⟩
      rwa [Char.le_antisymm hge hle]
    · exact fun hc => ⟨c, hc, Char.le_refl c, Char.le_refl c⟩
  rw [Letters.has, hany]

inductive Expr
  | empty
  | text (letters : List Char)
  | one (letters : Letters)
  | any
  | rule (name : List Char)
  | cat (first second : Expr)
  | alt (first second : Expr)
  | rep (body : Expr) (least : ℕ) (most : Option ℕ)
  deriving DecidableEq

/-- Rules, the last one first. Of two rules with one name the later one counts. -/
abbrev Rules := List (List Char × Expr)

inductive Derives (rules : Rules) : Expr → List Char → Prop
  | empty : Derives rules .empty []
  | text (letters : List Char) : Derives rules (.text letters) letters
  | one {letters : Letters} {c : Char} (h : letters.has c = true) :
      Derives rules (.one letters) [c]
  | any (c : Char) : Derives rules .any [c]
  | rule {name text : List Char} {body : Expr} (hbody : rules.lookup name = some body)
      (h : Derives rules body text) : Derives rules (.rule name) text
  | cat {first second : Expr} {front back : List Char} (hfirst : Derives rules first front)
      (hsecond : Derives rules second back) : Derives rules (.cat first second) (front ++ back)
  | left {first second : Expr} {text : List Char} (h : Derives rules first text) :
      Derives rules (.alt first second) text
  | right {first second : Expr} {text : List Char} (h : Derives rules second text) :
      Derives rules (.alt first second) text
  | rep {body : Expr} {least : ℕ} {most : Option ℕ} (pieces : List (List Char))
      (hleast : least ≤ pieces.length) (hmost : ∀ n ∈ most, pieces.length ≤ n)
      (h : ∀ piece ∈ pieces, Derives rules body piece) :
      Derives rules (.rep body least most) pieces.flatten

section

variable {rules : Rules} {first second body : Expr} {s name letters : List Char}

@[simp]
theorem derives_empty_iff : Derives rules .empty s ↔ s = [] := by
  constructor
  · rintro ⟨⟩
    rfl
  · rintro rfl
    exact .empty

@[simp]
theorem derives_text_iff : Derives rules (.text letters) s ↔ s = letters := by
  constructor
  · rintro ⟨⟩
    rfl
  · rintro rfl
    exact .text s

@[simp]
theorem derives_one_iff {letters : Letters} :
    Derives rules (.one letters) s ↔ ∃ c, letters.has c = true ∧ s = [c] := by
  constructor
  · rintro ⟨⟩
    exact ⟨_, ‹_›, rfl⟩
  · rintro ⟨c, h, rfl⟩
    exact .one h

@[simp]
theorem derives_any_iff : Derives rules .any s ↔ ∃ c, s = [c] := by
  constructor
  · rintro ⟨⟩
    exact ⟨_, rfl⟩
  · rintro ⟨c, rfl⟩
    exact .any c

theorem derives_rule_iff :
    Derives rules (.rule name) s ↔ ∃ body, rules.lookup name = some body ∧ Derives rules body s := by
  constructor
  · rintro ⟨⟩
    exact ⟨_, ‹_›, ‹_›⟩
  · rintro ⟨body, hbody, h⟩
    exact .rule hbody h

/-- A rule derives what its body does. -/
theorem derives_rule (h : rules.lookup name = some body) :
    Derives rules (.rule name) s ↔ Derives rules body s := by
  rw [derives_rule_iff, h]
  simp

@[simp]
theorem derives_cat_iff : Derives rules (.cat first second) s ↔
    ∃ front back, s = front ++ back ∧ Derives rules first front ∧ Derives rules second back := by
  constructor
  · rintro ⟨⟩
    exact ⟨_, _, rfl, ‹_›, ‹_›⟩
  · rintro ⟨front, back, rfl, hfirst, hsecond⟩
    exact .cat hfirst hsecond

@[simp]
theorem derives_alt_iff :
    Derives rules (.alt first second) s ↔ Derives rules first s ∨ Derives rules second s := by
  constructor
  · intro h
    cases h with
    | left h => exact Or.inl h
    | right h => exact Or.inr h
  · rintro (h | h)
    · exact .left h
    · exact .right h

theorem derives_rep_iff {least : ℕ} {most : Option ℕ} :
    Derives rules (.rep body least most) s ↔ ∃ pieces : List (List Char), s = pieces.flatten ∧
      least ≤ pieces.length ∧ (∀ n ∈ most, pieces.length ≤ n) ∧
        ∀ piece ∈ pieces, Derives rules body piece := by
  constructor
  · rintro ⟨⟩
    exact ⟨_, rfl, ‹_›, ‹_›, ‹_›⟩
  · rintro ⟨pieces, rfl, hleast, hmost, h⟩
    exact .rep pieces hleast hmost h

/-- Any number of pieces. -/
theorem derives_star_iff : Derives rules (.rep body 0 none) s ↔
    ∃ pieces : List (List Char), s = pieces.flatten ∧ ∀ piece ∈ pieces, Derives rules body piece := by
  rw [derives_rep_iff]
  simp

/-- A list of things of one form. -/
theorem exists_map_eq {α β : Type*} {f : β → α} {list : List α} (h : ∀ x ∈ list, ∃ y, x = f y) :
    ∃ list' : List β, list = list'.map f := by
  have hrange : list ∈ Set.range (List.map f) := by
    rw [Set.range_list_map]
    exact fun x hx => (h x hx).imp fun y hy => hy.symm
  exact hrange.imp fun list' hlist => hlist.symm

/-- Any number of pieces of one form. -/
theorem derives_star_of {α : Type*} {f : α → List Char}
    (hbody : ∀ s, Derives rules body s ↔ ∃ x, s = f x) :
    Derives rules (.rep body 0 none) s ↔ ∃ xs : List α, s = xs.flatMap f := by
  rw [derives_star_iff]
  constructor
  · rintro ⟨pieces, rfl, h⟩
    obtain ⟨xs, rfl⟩ := exists_map_eq fun piece hpiece => (hbody piece).mp (h piece hpiece)
    exact ⟨xs, List.flatMap_def.symm⟩
  · rintro ⟨xs, rfl⟩
    refine ⟨xs.map f, List.flatMap_def, ?_⟩
    intro piece hpiece
    obtain ⟨x, -, rfl⟩ := List.mem_map.mp hpiece
    exact (hbody _).mpr ⟨x, rfl⟩

/-- A piece, and then any number of them. -/
theorem derives_plus_iff : Derives rules (.rep body 1 none) s ↔
    ∃ front back, s = front ++ back ∧ Derives rules body front ∧
      Derives rules (.rep body 0 none) back := by
  rw [derives_rep_iff]
  constructor
  · rintro ⟨pieces, rfl, hleast, -, h⟩
    obtain ⟨piece, pieces, rfl⟩ := List.exists_cons_of_length_pos hleast
    obtain ⟨hpiece, hpieces⟩ := List.forall_mem_cons.mp h
    exact ⟨piece, pieces.flatten, rfl, hpiece, derives_star_iff.mpr ⟨pieces, rfl, hpieces⟩⟩
  · rintro ⟨front, back, rfl, hfront, hback⟩
    obtain ⟨pieces, rfl, hpieces⟩ := derives_star_iff.mp hback
    exact ⟨front :: pieces, rfl, by simp, by simp, List.forall_mem_cons.mpr ⟨hfront, hpieces⟩⟩

/-- A piece, or none. -/
theorem derives_opt_iff :
    Derives rules (.rep body 0 (some 1)) s ↔ s = [] ∨ Derives rules body s := by
  rw [derives_rep_iff]
  constructor
  · rintro ⟨pieces, rfl, -, hmost, h⟩
    match pieces, hmost 1 rfl, h with
    | [], _, _ => exact Or.inl rfl
    | [piece], _, h =>
        rw [List.flatten_singleton]
        exact Or.inr (h piece List.mem_cons_self)
  · rintro (rfl | h)
    · exact ⟨[], rfl, Nat.le_refl _, by simp, List.forall_mem_nil _⟩
    · exact ⟨[s], List.flatten_singleton.symm, Nat.zero_le _, by simp, by simpa using h⟩

end

/-! ### Sequences and alternatives -/

def seq (items : List Expr) : Expr := items.foldr .cat .empty

def choice : List Expr → Expr
  | [] => .empty
  | [last] => last
  | first :: more => .alt first (choice more)

section

variable {rules : Rules} {item : Expr} {items : List Expr} {s : List Char}

@[simp]
theorem derives_seq_nil : Derives rules (seq []) s ↔ s = [] := derives_empty_iff

@[simp]
theorem derives_seq_cons : Derives rules (seq (item :: items)) s ↔
    ∃ front back, s = front ++ back ∧ Derives rules item front ∧ Derives rules (seq items) back :=
  derives_cat_iff

theorem derives_seq_append {more : List Expr} : Derives rules (seq (items ++ more)) s ↔
    ∃ front back, s = front ++ back ∧ Derives rules (seq items) front ∧
      Derives rules (seq more) back := by
  induction items generalizing s with
  | nil => simp
  | cons item items ih =>
      simp only [List.cons_append, derives_seq_cons, ih]
      constructor
      · rintro ⟨first, _, rfl, hfirst, front, back, rfl, hfront, hback⟩
        exact ⟨first ++ front, back, by simp, ⟨first, front, rfl, hfirst, hfront⟩, hback⟩
      · rintro ⟨_, back, rfl, ⟨first, front, rfl, hfirst, hfront⟩, hback⟩
        exact ⟨first, front ++ back, by simp, hfirst, front, back, rfl, hfront, hback⟩

theorem derives_seq_singleton : Derives rules (seq [item]) s ↔ Derives rules item s := by
  simp

/-- A sequence derives what its items derive, one after the other. -/
theorem derives_seq_flatten {pieces : List (List Char)}
    (h : List.Forall₂ (Derives rules) items pieces) : Derives rules (seq items) pieces.flatten := by
  induction h with
  | nil => exact .empty
  | cons hitem _ ih => exact .cat hitem ih

/-- One of several alternatives. -/
theorem derives_choice (hne : items ≠ []) :
    Derives rules (choice items) s ↔ ∃ item ∈ items, Derives rules item s := by
  induction items with
  | nil => exact absurd rfl hne
  | cons first more ih =>
      cases more with
      | nil => simp [choice]
      | cons second more =>
          show Derives rules (.alt first (choice (second :: more))) s ↔ _
          rw [derives_alt_iff, ih (by simp)]
          simp

end

/-! ## Tokens -/

inductive Token
  | name (letters : List Char)
  | defines
  | literal (letters : List Char)
  | one (letters : Letters)
  | any
  | bar
  | opening
  | closing
  | times (least : ℕ) (most : Option ℕ)
  | newline
  deriving DecidableEq

/-- Where a range may stand in a class: not at its beginning, behind a character, or behind a
dash. -/
inductive Place
  | fresh
  | after
  | dash
  deriving DecidableEq

/-- A literal or a class that is not complete. -/
inductive Within
  | quoted (letters : List Char)
  | bracket (letters : Letters) (place : Place)
  deriving DecidableEq

/-- What has been read of a token. -/
inductive Mode
  | plain
  | word (letters : List Char)
  | colons (count : ℕ)
  | within (part : Within)
  | start
  | escaped (part : Within)
  | hex (digits value : ℕ) (part : Within)
  | braces (letters : List Char)
  | comment
  deriving DecidableEq

def isWord (c : Char) : Bool := c.isAlphanum || c == '-'

/-- One more character of a literal or a class. -/
def Within.push (part : Within) (c : Char) : Within :=
  match part with
  | .quoted letters => .quoted (letters ++ [c])
  | .bracket ⟨negated, (first, _) :: ranges⟩ .dash =>
      .bracket ⟨negated, (first, c) :: ranges⟩ .fresh
  | .bracket ⟨negated, ranges⟩ _ => .bracket ⟨negated, (c, c) :: ranges⟩ .after

/-- The token of a literal or a class. A dash at the end of a class stands for itself. -/
def Within.token (part : Within) : Token :=
  match part with
  | .quoted letters => .literal letters
  | .bracket ⟨negated, ranges⟩ .dash => .one ⟨negated, ('-', '-') :: ranges⟩
  | .bracket letters _ => .one letters

/-- The number that a digit of a hexadecimal number stands for. -/
def hexDigit (c : Char) : Option ℕ :=
  if c.isDigit then some (c.toNat - '0'.toNat)
  else if 'a' ≤ c ∧ c ≤ 'f' then some (c.toNat - 'a'.toNat + 10)
  else if 'A' ≤ c ∧ c ≤ 'F' then some (c.toNat - 'A'.toNat + 10)
  else none

/-- How often something may be repeated: `n`, `n,` or `n,m`. -/
def bounds (letters : List Char) : Option Token :=
  let number (letters : List Char) : Option ℕ :=
    if letters ≠ [] ∧ letters.all Char.isDigit then
      some (letters.foldl (fun n c => 10 * n + (c.toNat - '0'.toNat)) 0)
    else none
  match letters.splitOn ',' with
  | [count] => (number count).map fun n => .times n (some n)
  | [least, []] => (number least).map fun n => .times n none
  | [least, most] => (number least).bind fun n => (number most).map fun m => .times n (some m)
  | _ => none

/-- Read a character where a token may begin. -/
def stepPlain (c : Char) : Option (List Token × Mode) :=
  if c = ' ' ∨ c = '\t' then some ([], .plain)
  else if c = '\n' ∨ c = '\r' then some ([.newline], .plain)
  else if c = '#' then some ([], .comment)
  else if c = '"' then some ([], .within (.quoted []))
  else if c = '[' then some ([], .start)
  else if c = '(' then some ([.opening], .plain)
  else if c = ')' then some ([.closing], .plain)
  else if c = '|' then some ([.bar], .plain)
  else if c = '*' then some ([.times 0 none], .plain)
  else if c = '+' then some ([.times 1 none], .plain)
  else if c = '?' then some ([.times 0 (some 1)], .plain)
  else if c = '.' then some ([.any], .plain)
  else if c = '\x7b' then some ([], .braces [])
  else if c = ':' then some ([], .colons 1)
  else if isWord c then some ([], .word [c])
  else none

/-- Read a character of a literal or a class. -/
def stepWithin (part : Within) (c : Char) : List Token × Mode :=
  match part with
  | .quoted letters =>
      if c = '"' then ([.literal letters], .plain)
      else if c = '\\' then ([], .escaped part)
      else ([], .within (part.push c))
  | .bracket letters place =>
      if c = ']' then ([part.token], .plain)
      else if c = '\\' then ([], .escaped part)
      else if c = '-' ∧ place = .after then ([], .within (.bracket letters .dash))
      else ([], .within (part.push c))

/-- Read a character behind a backslash. -/
def stepEscaped (part : Within) (c : Char) : Option Mode :=
  if c = 'n' then some (.within (part.push '\n'))
  else if c = 't' then some (.within (part.push '\t'))
  else if c = 'r' then some (.within (part.push '\r'))
  else if c ∈ ['\\', '"', '[', ']'] then some (.within (part.push c))
  else if c = 'x' then some (.hex 2 0 part)
  else if c = 'u' then some (.hex 4 0 part)
  else if c = 'U' then some (.hex 8 0 part)
  else none

/-- Read a character: the tokens that are complete, and what has been read of the next one. -/
def step (mode : Mode) (c : Char) : Option (List Token × Mode) :=
  match mode with
  | .plain => stepPlain c
  | .word letters =>
      if isWord c then some ([], .word (letters ++ [c]))
      else (stepPlain c).map fun next => (.name letters :: next.1, next.2)
  | .colons count =>
      if count = 1 ∧ c = ':' then some ([], .colons 2)
      else if count = 2 ∧ c = '=' then some ([.defines], .plain)
      else none
  | .within part => some (stepWithin part c)
  | .start =>
      if c = '^' then some ([], .within (.bracket ⟨true, []⟩ .fresh))
      else some (stepWithin (.bracket ⟨false, []⟩ .fresh) c)
  | .escaped part => (stepEscaped part c).map fun next => ([], next)
  | .hex digits value part =>
      (hexDigit c).map fun digit =>
        let value := 16 * value + digit
        if digits = 1 then ([], .within (part.push (Char.ofNat value)))
        else ([], .hex (digits - 1) value part)
  | .braces letters =>
      if c = '\x7d' then (bounds letters).map fun token => ([token], .plain)
      else some ([], .braces (letters ++ [c]))
  | .comment => some (if c = '\n' ∨ c = '\r' then ([.newline], .plain) else ([], .comment))

def lexFrom : Mode → List Char → Option (List Token × Mode)
  | mode, [] => some ([], mode)
  | mode, c :: text =>
      (step mode c).bind fun next =>
        (lexFrom next.2 text).map fun later => (next.1 ++ later.1, later.2)

/-- A text is read piece by piece. -/
theorem lexFrom_append (mode : Mode) (front back : List Char) :
    lexFrom mode (front ++ back) =
      (lexFrom mode front).bind fun next =>
        (lexFrom next.2 back).map fun later => (next.1 ++ later.1, later.2) := by
  induction front generalizing mode with
  | nil => simp [lexFrom]
  | cons c front ih =>
      rw [List.cons_append, lexFrom, lexFrom, Option.bind_assoc]
      congr 1
      funext next
      rw [ih]
      cases lexFrom next.2 front with
      | none => rfl
      | some later =>
          simp only [Option.bind_some, Option.map_some]
          cases lexFrom later.2 back <;> simp [List.append_assoc]

/-! ## Reading rules -/

/-- The alternatives of a rule or a group that are complete, and the items of the next one, the
last ones first. -/
structure Frame where
  alts : List Expr
  items : List Expr
  deriving DecidableEq

def Frame.expr (frame : Frame) : Expr :=
  choice (frame.alts.reverse ++ [seq frame.items.reverse])

def Frame.push (frame : Frame) (item : Expr) : Frame := ⟨frame.alts, item :: frame.items⟩

/-- Read a token of the body of a rule, the innermost group first. -/
def stepBody (frame : Frame) (outer : List Frame) (token : Token) : Option (Frame × List Frame) :=
  match token with
  | .name letters => some (frame.push (.rule letters), outer)
  | .literal letters => some (frame.push (.text letters), outer)
  | .one letters => some (frame.push (.one letters), outer)
  | .any => some (frame.push .any, outer)
  | .bar => some (⟨seq frame.items.reverse :: frame.alts, []⟩, outer)
  | .opening => some (⟨[], []⟩, frame :: outer)
  | .closing =>
      match outer with
      | [] => none
      | next :: outer => some (next.push frame.expr, outer)
  | .times least most =>
      match frame.items with
      | [] => none
      | item :: items => some (⟨frame.alts, .rep item least most :: items⟩, outer)
  | .newline => some (frame, outer)
  | .defines => none

/-- What has been read of a rule. -/
inductive Current
  | between
  | named (name : List Char)
  | body (name : List Char) (frame : Frame) (outer : List Frame)
  deriving DecidableEq

structure State where
  rules : Rules
  current : Current
  deriving DecidableEq

/-- Read a token. A line ends a rule that is not empty and has no open group. -/
def stepToken (state : State) (token : Token) : Option State :=
  match state.current, token with
  | .between, .newline => some state
  | .between, .name letters => some ⟨state.rules, .named letters⟩
  | .named name, .defines => some ⟨state.rules, .body name ⟨[], []⟩ []⟩
  | .body name frame outer, token =>
      if token = .newline ∧ outer = [] ∧ frame.items ≠ [] then
        some ⟨(name, frame.expr) :: state.rules, .between⟩
      else
        (stepBody frame outer token).map fun next => ⟨state.rules, .body name next.1 next.2⟩
  | _, _ => none

def parseFrom (state : State) (tokens : List Token) : Option State := tokens.foldlM stepToken state

theorem parseFrom_append (state : State) (front back : List Token) :
    parseFrom state (front ++ back) = (parseFrom state front).bind (parseFrom · back) :=
  List.foldlM_append

/-- The names that an expression uses. -/
def Expr.names : Expr → List (List Char)
  | .rule name => [name]
  | .cat first second | .alt first second => first.names ++ second.names
  | .rep body _ _ => body.names
  | .empty | .text _ | .one _ | .any => []

/-- Read a text, with what has been read of a token and of the rules. -/
def readFrom (mode : Mode) (state : State) (text : List Char) : Option (Mode × State) :=
  (lexFrom mode text).bind fun lexed =>
    (parseFrom state lexed.1).map fun state => (lexed.2, state)

/-- The rules of a text. Every name that is used must be that of a rule. -/
def read (text : List Char) : Option Rules :=
  (readFrom .plain ⟨[], .between⟩ (text ++ ['\n'])).bind fun last =>
    if last.1 = .plain ∧ last.2.current = .between ∧
        ∀ rule ∈ last.2.rules, ∀ name ∈ rule.2.names, name ∈ last.2.rules.map Prod.fst then
      some last.2.rules
    else none

example : read "root ::= \"a\" ([0-9] | item)*\nitem ::= \"\\\"\"".toList =
    some [("item".toList, seq [.text ['"']]), ("root".toList, seq [.text ['a'],
      .rep (choice [seq [.one ⟨false, [('0', '9')]⟩], seq [.rule "item".toList]]) 0 none])] := by
  decide +kernel

/-! ### Reading piece by piece -/

theorem readFrom_append (mode : Mode) (state : State) (front back : List Char) :
    readFrom mode state (front ++ back) =
      (readFrom mode state front).bind fun next => readFrom next.1 next.2 back := by
  rw [readFrom, readFrom, lexFrom_append, Option.bind_assoc, Option.bind_assoc]
  congr 1
  funext lexed
  cases hback : lexFrom lexed.2 back with
  | none => cases parseFrom state lexed.1 <;> simp [readFrom, hback]
  | some later =>
      rw [Option.map_some, Option.bind_some, parseFrom_append]
      cases parseFrom state lexed.1 with
      | none => rfl
      | some state =>
          rw [Option.bind_some, Option.map_some, Option.bind_some, readFrom, hback,
            Option.bind_some]

/-- The text of a literal string. -/
theorem readFrom_ofList {mode : Mode} {state : State} {letters : List Char}
    {result : Option (Mode × State)} (h : readFrom mode state letters = result) :
    readFrom mode state (String.ofList letters).toList = result := by
  rwa [String.toList_ofList]

/-- The text of two literal strings. -/
theorem readFrom_ofList_append {mode : Mode} {state : State} {front back : List Char}
    {result : Option (Mode × State)} (h : readFrom mode state (front ++ back) = result) :
    readFrom mode state ((String.ofList front).toList ++ (String.ofList back).toList) = result := by
  rwa [String.toList_ofList, String.toList_ofList]

/-- One piece after the other. -/
theorem readFrom_trans {mode next last : Mode} {state between final : State}
    {front back : List Char} (hfront : readFrom mode state front = some (next, between))
    (hback : readFrom next between back = some (last, final)) :
    readFrom mode state (front ++ back) = some (last, final) := by
  rw [readFrom_append, hfront, Option.bind_some, hback]

/-- Rules that have been read before. -/
def State.under (state : State) (rules : Rules) : State := ⟨state.rules ++ rules, state.current⟩

theorem stepToken_under (state : State) (rules : Rules) (token : Token) :
    stepToken (state.under rules) token =
      (stepToken state token).map fun next => next.under rules := by
  obtain ⟨before, current⟩ := state
  cases current with
  | between | named => cases token <;> rfl
  | body name frame outer =>
      simp only [stepToken, State.under]
      split_ifs
      · rfl
      · cases stepBody frame outer token <;> rfl

theorem parseFrom_under (state : State) (rules : Rules) (tokens : List Token) :
    parseFrom (state.under rules) tokens =
      (parseFrom state tokens).map fun next => next.under rules := by
  induction tokens generalizing state with
  | nil => rfl
  | cons token tokens ih =>
      rw [parseFrom, List.foldlM_cons, stepToken_under, parseFrom, List.foldlM_cons]
      cases stepToken state token with
      | none => rfl
      | some next => exact ih next

/-- What has been read before makes no difference. -/
theorem readFrom_under {mode last : Mode} {state final : State} {text : List Char}
    (h : readFrom mode state text = some (last, final)) (rules : Rules) :
    readFrom mode (state.under rules) text = some (last, final.under rules) := by
  rw [readFrom] at h ⊢
  cases hlex : lexFrom mode text with
  | none =>
      rw [hlex] at h
      cases h
  | some lexed =>
      rw [hlex, Option.bind_some] at h
      rw [Option.bind_some, parseFrom_under]
      cases hlexed : parseFrom state lexed.1 with
      | none =>
          rw [hlexed] at h
          cases h
      | some next =>
          rw [hlexed] at h
          cases h
          rfl

/-- A character that completes no token. -/
theorem lexFrom_cons {mode next : Mode} {c : Char} (h : step mode c = some ([], next))
    (text : List Char) : lexFrom mode (c :: text) = lexFrom next text := by
  rw [lexFrom, h, Option.bind_some]
  cases lexFrom next text <;> rfl

/-- Letters of a literal that are not escaped. -/
theorem lexFrom_quoted {letters : List Char} (hletters : ∀ c ∈ letters, c ≠ '"' ∧ c ≠ '\\')
    (before rest : List Char) :
    lexFrom (.within (.quoted before)) (letters ++ rest) =
      lexFrom (.within (.quoted (before ++ letters))) rest := by
  induction letters generalizing before with
  | nil => rw [List.nil_append, List.append_nil]
  | cons c letters ih =>
      obtain ⟨⟨hquote, hslash⟩, hmore⟩ := List.forall_mem_cons.mp hletters
      have hstep : step (.within (.quoted before)) c =
          some ([], .within (.quoted (before ++ [c]))) := by
        rw [step, stepWithin, if_neg hquote, if_neg hslash]
        rfl
      rw [List.cons_append, lexFrom_cons hstep, ih hmore, List.append_assoc, List.singleton_append]

/-- A literal of a string of JSON whose letters are not escaped. -/
theorem lexFrom_string {letters : List Char} (hletters : ∀ c ∈ letters, c ≠ '"' ∧ c ≠ '\\') :
    lexFrom .plain (['"', '\\', '"'] ++ letters ++ ['\\', '"', '"']) =
      some ([.literal ('"' :: (letters ++ ['"']))], .plain) := by
  have hopen (rest : List Char) : lexFrom .plain ('"' :: '\\' :: '"' :: rest) =
      lexFrom (.within (.quoted ['"'])) rest := by
    rw [@lexFrom_cons _ (.within (.quoted [])) _ rfl, @lexFrom_cons _ (.escaped (.quoted [])) _ rfl,
      @lexFrom_cons _ (.within (.quoted ['"'])) _ rfl]
  have hclose (before : List Char) : lexFrom (.within (.quoted before)) ['\\', '"', '"'] =
      some ([.literal (before ++ ['"'])], .plain) := by
    rw [@lexFrom_cons _ (.escaped (.quoted before)) _ rfl,
      @lexFrom_cons _ (.within (.quoted (before ++ ['"']))) _ rfl]
    rfl
  rw [List.append_assoc]
  exact (hopen _).trans ((lexFrom_quoted hletters ['"'] _).trans (hclose _))

end Gbnf
