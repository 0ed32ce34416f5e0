/-
# How a grammar is written

A grammar is written line by line, a rule on each. What stands in a line is read as the items of a
rule wherever it stands, if it is not followed by more of a name; alternatives, groups and lines are
made of such texts.
-/

import HiveBear.Library.Gbnf

namespace Gbnf

/-! ## Names -/

/-- A text that is a name. -/
def IsName (word : List Char) : Prop := word ≠ [] ∧ ∀ c ∈ word, isWord c = true

instance (word : List Char) : Decidable (IsName word) :=
  @instDecidableAnd _ _ inferInstance (List.decidableBAll _ word)

theorem stepPlain_of_isWord {c : Char} (h : isWord c = true) :
    stepPlain c = some ([], .word [c]) := by
  have hne {d : Char} (hd : isWord d = false) : c ≠ d := by
    rintro rfl
    rw [h] at hd
    cases hd
  rw [stepPlain, if_neg (not_or.mpr ⟨hne rfl, hne rfl⟩), if_neg (not_or.mpr ⟨hne rfl, hne rfl⟩),
    if_neg (hne rfl), if_neg (hne rfl), if_neg (hne rfl), if_neg (hne rfl), if_neg (hne rfl),
    if_neg (hne rfl), if_neg (hne rfl), if_neg (hne rfl), if_neg (hne rfl), if_neg (hne rfl),
    if_neg (hne rfl), if_neg (hne rfl), if_pos h]

theorem lexFrom_word {word : List Char} (hword : ∀ c ∈ word, isWord c = true)
    (before : List Char) {c : Char} (hc : isWord c = false) (rest : List Char) :
    lexFrom (.word before) (word ++ c :: rest) =
      (lexFrom .plain (c :: rest)).map fun later =>
        (.name (before ++ word) :: later.1, later.2) := by
  induction word generalizing before with
  | nil =>
      have hstep : step (.word before) c =
          (step .plain c).map fun next => (.name before :: next.1, next.2) :=
        if_neg (by simp [hc])
      rw [List.nil_append, List.append_nil, lexFrom, lexFrom, hstep]
      cases step .plain c with
      | none => rfl
      | some next =>
          rw [Option.map_some, Option.bind_some, Option.bind_some]
          cases lexFrom next.2 rest <;> rfl
  | cons d word ih =>
      obtain ⟨hd, hmore⟩ := List.forall_mem_cons.mp hword
      have hstep : step (.word before) d = some ([], .word (before ++ [d])) := if_pos hd
      rw [List.cons_append, lexFrom_cons hstep, ih hmore, List.append_assoc, List.singleton_append]

/-- A name is read as soon as something else follows. -/
theorem readFrom_name {word : List Char} (hword : IsName word) {c : Char} (hc : isWord c = false)
    (state : State) (rest : List Char) :
    readFrom .plain state (word ++ c :: rest) =
      (stepToken state (.name word)).bind fun next => readFrom .plain next (c :: rest) := by
  obtain ⟨hne, hall⟩ := hword
  obtain ⟨first, more, rfl⟩ := List.exists_cons_of_ne_nil hne
  obtain ⟨hfirst, hmore⟩ := List.forall_mem_cons.mp hall
  have hstep : step .plain first = some ([], .word [first]) := stepPlain_of_isWord hfirst
  rw [readFrom, List.cons_append, lexFrom_cons hstep,
    lexFrom_word hmore _ hc, List.singleton_append, Option.bind_map]
  simp only [readFrom, Function.comp_def, parseFrom, List.foldlM_cons]
  cases stepToken state (.name (first :: more)) with
  | none => cases lexFrom .plain (c :: rest) <;> rfl
  | some next => rfl

/-! ## Items -/

/-- A text is read as items, wherever it stands in a rule, and nothing is left of a token. -/
def Completes (text : List Char) (items : List Expr) : Prop :=
  ∀ (rules : Rules) (rule : List Char) (alts before : List Expr) (outer : List Frame),
    readFrom .plain ⟨rules, .body rule ⟨alts, before⟩ outer⟩ text =
      some (.plain, ⟨rules, .body rule ⟨alts, items.reverse ++ before⟩ outer⟩)

/-- A text is read as items, wherever it stands in a rule, if it is not followed by more of a
name. -/
def Denotes (text : List Char) (items : List Expr) : Prop :=
  ∀ (rules : Rules) (rule : List Char) (alts before : List Expr) (outer : List Frame) (c : Char)
    (rest : List Char), isWord c = false →
      readFrom .plain ⟨rules, .body rule ⟨alts, before⟩ outer⟩ (text ++ c :: rest) =
        readFrom .plain ⟨rules, .body rule ⟨alts, items.reverse ++ before⟩ outer⟩ (c :: rest)

section

variable {front back text letters : List Char} {items more : List Expr}

/-- The text of a literal string. -/
theorem completes_ofList (h : Completes text items) :
    Completes (String.ofList text).toList items := by
  rwa [String.toList_ofList]

/-- A literal whose letters are not escaped. -/
theorem completes_literal (hletters : ∀ c ∈ letters, c ≠ '"' ∧ c ≠ '\\') :
    Completes ('"' :: (letters ++ ['"'])) [.text letters] := by
  intro rules rule alts before outer
  have hlex : lexFrom .plain ('"' :: (letters ++ ['"'])) = some ([.literal letters], .plain) := by
    rw [@lexFrom_cons _ (.within (.quoted [])) _ rfl, lexFrom_quoted hletters, List.nil_append]
    rfl
  rw [readFrom, hlex]
  rfl

/-- A literal of a string of JSON whose letters are not escaped. -/
theorem completes_string (hletters : ∀ c ∈ letters, c ≠ '"' ∧ c ≠ '\\') :
    Completes (['"', '\\', '"'] ++ letters ++ ['\\', '"', '"'])
      [.text ('"' :: (letters ++ ['"']))] := by
  intro rules rule alts before outer
  rw [readFrom, lexFrom_string hletters]
  rfl

theorem Completes.denotes (h : Completes text items) : Denotes text items := by
  intro rules rule alts before outer c rest _
  rw [readFrom_append, h, Option.bind_some]

theorem denotes_name {word : List Char} (h : IsName word) : Denotes word [.rule word] := by
  intro rules rule alts before outer c rest hc
  rw [readFrom_name h hc]
  rfl

/-- Behind a text of which nothing is left there may be a name. -/
theorem Completes.append (hfront : Completes front items) (hback : Denotes back more) :
    Denotes (front ++ back) (items ++ more) := by
  intro rules rule alts before outer c rest hc
  rw [List.append_assoc, readFrom_append, hfront, Option.bind_some, hback _ _ _ _ _ c rest hc,
    List.reverse_append, List.append_assoc]

theorem Denotes.append (hfront : Denotes front items) (hback : Denotes back more)
    (hnext : ∃ c, back.head? = some c ∧ isWord c = false) :
    Denotes (front ++ back) (items ++ more) := by
  intro rules rule alts before outer c rest hc
  have hrest := hback rules rule alts (items.reverse ++ before) outer c rest hc
  obtain ⟨d, hhead, hd⟩ := hnext
  obtain ⟨others, rfl⟩ := List.head?_eq_some_iff.mp hhead
  rw [List.append_assoc, List.reverse_append, List.append_assoc, ← hrest]
  exact hfront rules rule alts before outer d (others ++ c :: rest) hd

/-- A group that is repeated. -/
theorem Denotes.group (h : Denotes text items) {mark : Char} {least : ℕ} {most : Option ℕ}
    (hmark : stepPlain mark = some ([.times least most], .plain)) :
    Completes ('(' :: (text ++ [')', mark])) [.rep (seq items) least most] := by
  intro rules rule alts before outer
  have hopen (rest : List Char) :
      readFrom .plain ⟨rules, .body rule ⟨alts, before⟩ outer⟩ ('(' :: rest) =
        readFrom .plain ⟨rules, .body rule ⟨[], []⟩ (⟨alts, before⟩ :: outer)⟩ rest := by
    rw [← List.singleton_append, readFrom_append]
    rfl
  have hlex : lexFrom .plain [')', mark] = some ([.closing, .times least most], .plain) := by
    simp only [lexFrom, step, hmark]
    rfl
  rw [hopen, h _ _ _ _ _ ')' [mark] rfl, readFrom, hlex, List.append_nil]
  simp [parseFrom, stepToken, stepBody, Frame.push, Frame.expr, choice]

end

/-! ## Rules -/

/-- Alternatives, the last of which ends the rule. -/
theorem readFrom_alternatives {alternatives : List (List Char × List Expr)}
    (hne : alternatives ≠ [])
    (h : ∀ alternative ∈ alternatives, Denotes alternative.1 alternative.2 ∧ alternative.2 ≠ [])
    (rules : Rules) (rule : List Char) (before : List Expr) :
    readFrom .plain ⟨rules, .body rule ⟨before, []⟩ []⟩
        ([' ', '|', ' '].intercalate (alternatives.map Prod.fst) ++ ['\n']) =
      some (.plain, ⟨(rule, choice (before.reverse ++
        alternatives.map fun alternative => seq alternative.2)) :: rules, .between⟩) := by
  induction alternatives generalizing before with
  | nil => exact absurd rfl hne
  | cons alternative alternatives ih =>
      obtain ⟨⟨hfirst, hitems⟩, hmore⟩ := List.forall_mem_cons.mp h
      cases alternatives with
      | nil =>
          rw [List.map_singleton, List.intercalate_singleton,
            hfirst rules rule before [] [] _ _ rfl, List.append_nil]
          have hlast : stepToken ⟨rules, .body rule ⟨before, alternative.2.reverse⟩ []⟩ .newline =
              some ⟨(rule, Frame.expr ⟨before, alternative.2.reverse⟩) :: rules, .between⟩ :=
            if_pos ⟨rfl, rfl, by simpa using hitems⟩
          have hread (state : State) : readFrom .plain state ['\n'] =
              (stepToken state .newline).map fun next => (.plain, next) := by
            have hlex : lexFrom .plain ['\n'] = some ([.newline], .plain) := rfl
            rw [readFrom, hlex, Option.bind_some, parseFrom, List.foldlM_cons]
            cases stepToken state .newline <;> rfl
          rw [hread, hlast, Frame.expr, List.reverse_reverse]
          rfl
      | cons next alternatives =>
          have hrest := ih (List.cons_ne_nil _ _) hmore (seq alternative.2 :: before)
          rw [List.reverse_cons, List.append_assoc] at hrest
          rw [List.map_cons, List.map_cons, List.intercalate_cons_cons, List.append_assoc,
            List.append_assoc]
          rw [List.cons_append, hfirst rules rule before [] [] _ _ rfl, List.append_nil]
          have hbar (rest : List Char) :
              readFrom .plain ⟨rules, .body rule ⟨before, alternative.2.reverse⟩ []⟩
                ([' ', '|', ' '] ++ rest) =
                readFrom .plain ⟨rules, .body rule ⟨seq alternative.2 :: before, []⟩ []⟩ rest := by
            have hmark : readFrom .plain ⟨rules, .body rule ⟨before, alternative.2.reverse⟩ []⟩
                [' ', '|', ' '] = some (.plain, ⟨rules, .body rule
                  ⟨seq alternative.2.reverse.reverse :: before, []⟩ []⟩) := rfl
            rw [readFrom_append, hmark, List.reverse_reverse]
            rfl
          exact (hbar _).trans hrest

/-- A line is read as a rule. -/
def IsRule (line : List Char) (rule : List Char × Expr) : Prop :=
  ∀ rules : Rules, readFrom .plain ⟨rules, .between⟩ (line ++ ['\n']) =
    some (.plain, ⟨rule :: rules, .between⟩)

/-- The rule of some alternatives. -/
theorem isRule_of_alternatives {name : List Char} (hname : IsName name)
    {alternatives : List (List Char × List Expr)} (hne : alternatives ≠ [])
    (h : ∀ alternative ∈ alternatives, Denotes alternative.1 alternative.2 ∧ alternative.2 ≠ []) :
    IsRule (name ++ [' ', ':', ':', '=', ' '] ++ [' ', '|', ' '].intercalate
        (alternatives.map Prod.fst))
      (name, choice (alternatives.map fun alternative => seq alternative.2)) := by
  intro rules
  have hdefines (rest : List Char) :
      readFrom .plain ⟨rules, .named name⟩ ([' ', ':', ':', '=', ' '] ++ rest) =
        readFrom .plain ⟨rules, .body name ⟨[], []⟩ []⟩ rest := by
    rw [readFrom_append]
    rfl
  rw [List.append_assoc, List.append_assoc, List.cons_append, readFrom_name hname rfl]
  exact (hdefines _).trans (readFrom_alternatives hne h rules name [])

/-! ### Lines by themselves -/

/-- The rules that a text is read as, the last one first, whatever names they use. -/
def readRules (text : List Char) : Option Rules :=
  (readFrom .plain ⟨[], .between⟩ (text ++ ['\n'])).bind fun last =>
    if last.1 = .plain ∧ last.2.current = .between then some last.2.rules else none

theorem readRules_of_isRule {line : List Char} {rule : List Char × Expr} (h : IsRule line rule) :
    readRules line = some [rule] := by
  rw [readRules, h, Option.bind_some]
  exact if_pos ⟨rfl, rfl⟩

/-- A line that is read by itself is read behind others. -/
theorem readFrom_of_readRules {line : List Char} {rules : Rules} (h : readRules line = some rules)
    (before : Rules) : readFrom .plain ⟨before, .between⟩ (line ++ ['\n']) =
      some (.plain, ⟨rules ++ before, .between⟩) := by
  obtain ⟨⟨mode, last⟩, hread, hlast⟩ := Option.bind_eq_some_iff.mp h
  split_ifs at hlast with hcomplete
  obtain ⟨hmode, hcurrent⟩ := hcomplete
  cases hlast
  obtain ⟨rules, current⟩ := last
  cases hmode
  cases hcurrent
  exact readFrom_under hread before

/-- **The rules of a text are those of its lines.** -/
theorem readRules_intercalate {lines : List (List Char × Rules)} (hne : lines ≠ [])
    (h : ∀ line ∈ lines, readRules line.1 = some line.2) :
    readRules (['\n'].intercalate (lines.map Prod.fst)) = some (lines.reverse.flatMap Prod.snd) := by
  have hlines : ∀ before : Rules,
      readFrom .plain ⟨before, .between⟩ (['\n'].intercalate (lines.map Prod.fst) ++ ['\n']) =
        some (.plain, ⟨lines.reverse.flatMap Prod.snd ++ before, .between⟩) := by
    induction lines with
    | nil => exact absurd rfl hne
    | cons line lines ih =>
        intro before
        obtain ⟨hline, hmore⟩ := List.forall_mem_cons.mp h
        have hfirst := readFrom_of_readRules hline before
        cases lines with
        | nil => simpa using hfirst
        | cons next lines =>
            have hrest := ih (List.cons_ne_nil _ _) hmore (line.2 ++ before)
            rw [List.map_cons, List.map_cons, List.intercalate_cons_cons, ← List.map_cons,
              List.append_assoc, List.append_assoc, ← List.append_assoc, readFrom_append,
              hfirst, Option.bind_some, hrest]
            simp
  rw [readRules, hlines, Option.bind_some, List.append_nil]
  exact if_pos ⟨rfl, rfl⟩

/-- A text is a grammar if the names that its rules use are those of rules. -/
theorem read_eq_some_iff {text : List Char} {rules : Rules} :
    read text = some rules ↔ readRules text = some rules ∧
      ∀ rule ∈ rules, ∀ name ∈ rule.2.names, name ∈ rules.map Prod.fst := by
  rw [read, readRules]
  cases readFrom .plain ⟨[], .between⟩ (text ++ ['\n']) with
  | none => exact iff_of_false (fun h => by cases h) fun h => by cases h.1
  | some last =>
      rw [Option.bind_some, Option.bind_some, Option.ite_none_right_eq_some,
        Option.ite_none_right_eq_some, Option.some_inj]
      constructor
      · rintro ⟨⟨hmode, hcurrent, hclosed⟩, rfl⟩
        exact ⟨⟨⟨hmode, hcurrent⟩, rfl⟩, hclosed⟩
      · rintro ⟨⟨⟨hmode, hcurrent⟩, rfl⟩, hclosed⟩
        exact ⟨⟨hmode, hcurrent, hclosed⟩, rfl⟩

/-- **The lines of a grammar are read as its rules**, if the names that they use are those of
rules. -/
theorem read_intercalate {lines : List (List Char × (List Char × Expr))} (hne : lines ≠ [])
    (h : ∀ line ∈ lines, IsRule line.1 line.2)
    (hclosed : ∀ line ∈ lines, ∀ name ∈ line.2.2.names, name ∈ lines.map fun line => line.2.1) :
    read (['\n'].intercalate (lines.map Prod.fst)) = some (lines.map Prod.snd).reverse := by
  have hread : readRules (['\n'].intercalate (lines.map Prod.fst)) =
      some (lines.map Prod.snd).reverse := by
    have hlines := @readRules_intercalate (lines.map fun line => (line.1, [line.2])) (by simpa)
      (List.forall_mem_map.mpr fun line hline => readRules_of_isRule (h line hline))
    rw [List.map_map, ← List.map_reverse, List.flatMap_map] at hlines
    rw [← List.map_reverse, @List.map_eq_flatMap _ _ Prod.snd]
    exact hlines
  refine read_eq_some_iff.mpr ⟨hread, fun rule hrule name hname => ?_⟩
  obtain ⟨line, hline, rfl⟩ := List.mem_map.mp (List.mem_reverse.mp hrule)
  rw [List.map_reverse, List.mem_reverse, List.map_map]
  exact hclosed line hline name hname

/-! ### What a line begins with -/

/-- A token in the body of a rule ends the rule or is part of it, whatever the rule is named. -/
theorem stepToken_body {rules : Rules} {name : List Char} {frame : Frame} {outer : List Frame}
    {token : Token} {next : State}
    (h : stepToken ⟨rules, .body name frame outer⟩ token = some next) :
    (next = ⟨(name, frame.expr) :: rules, .between⟩ ∧ ∀ other, stepToken
        ⟨rules, .body other frame outer⟩ token = some ⟨(other, frame.expr) :: rules, .between⟩) ∨
      ∃ inner more, next = ⟨rules, .body name inner more⟩ ∧ ∀ other, stepToken
        ⟨rules, .body other frame outer⟩ token = some ⟨rules, .body other inner more⟩ := by
  have hstep (other : List Char) : stepToken ⟨rules, .body other frame outer⟩ token =
      if token = .newline ∧ outer = [] ∧ frame.items ≠ [] then
        some ⟨(other, frame.expr) :: rules, .between⟩
      else (stepBody frame outer token).map fun next => ⟨rules, .body other next.1 next.2⟩ := by
    rw [stepToken.eq_def]
  rw [hstep] at h
  simp only [hstep]
  split_ifs at h with hends
  · exact Or.inl ⟨(Option.some.inj h).symm, fun other => if_pos hends⟩
  · obtain ⟨⟨inner, more⟩, hbody, rfl⟩ := Option.map_eq_some_iff.mp h
    exact Or.inr ⟨inner, more, rfl, fun other => by rw [if_neg hends, hbody, Option.map_some]⟩

theorem parseFrom_cons {state next : State} {token : Token} (h : stepToken state token = some next)
    (tokens : List Token) : parseFrom state (token :: tokens) = parseFrom next tokens := by
  rw [parseFrom, List.foldlM_cons, h]
  rfl

/-- Where the body of a rule is read, the rule is the first one that becomes complete. It may have
any other name. -/
theorem parseFrom_body {name : List Char} {frame : Frame} {outer : List Frame}
    {tokens : List Token} {last : State}
    (h : parseFrom ⟨[], .body name frame outer⟩ tokens = some last)
    (hbetween : last.current = .between) :
    ∃ later expr, last.rules = later ++ [(name, expr)] ∧ ∀ other, parseFrom
      ⟨[], .body other frame outer⟩ tokens = some ⟨later ++ [(other, expr)], .between⟩ := by
  induction tokens generalizing frame outer with
  | nil =>
      cases h
      cases hbetween
  | cons token tokens ih =>
      obtain ⟨middle, hmiddle, hlast⟩ := Option.bind_eq_some_iff.mp h
      rcases stepToken_body hmiddle with ⟨rfl, hother⟩ | ⟨inner, more, rfl, hother⟩
      · have hunder (other : List Char) : parseFrom ⟨[(other, frame.expr)], .between⟩ tokens =
            (parseFrom ⟨[], .between⟩ tokens).map fun next => next.under [(other, frame.expr)] :=
          parseFrom_under ⟨[], .between⟩ _ tokens
        obtain ⟨free, hfree, rfl⟩ := Option.map_eq_some_iff.mp ((hunder name).symm.trans hlast)
        obtain ⟨later, current⟩ := free
        have hcurrent : current = .between := hbetween
        refine ⟨later, frame.expr, rfl, fun other => ?_⟩
        rw [parseFrom_cons (hother other), hunder, hfree, hcurrent]
        rfl
      · obtain ⟨later, expr, hrules, hsame⟩ := ih hlast
        exact ⟨later, expr, hrules, fun other => by rw [parseFrom_cons (hother other), hsame]⟩

/-- **The first rule of a text is the one that it begins with**, and what it is read as does not
depend on its name. -/
theorem readRules_named {name body : List Char} {rules : Rules} (hname : IsName name)
    (h : readRules (name ++ [' ', ':', ':', '=', ' '] ++ body) = some rules) :
    ∃ later expr, rules = later ++ [(name, expr)] ∧ ∀ other, IsName other →
      readRules (other ++ [' ', ':', ':', '=', ' '] ++ body) =
        some (later ++ [(other, expr)]) := by
  have hdefines {other : List Char} (hother : IsName other) :
      readFrom .plain ⟨[], .between⟩ (other ++ [' ', ':', ':', '=', ' '] ++ body ++ ['\n']) =
        readFrom .plain ⟨[], .body other ⟨[], []⟩ []⟩ (body ++ ['\n']) := by
    have hmark : readFrom .plain ⟨[], .named other⟩ ([' ', ':', ':', '=', ' '] ++
        (body ++ ['\n'])) = readFrom .plain ⟨[], .body other ⟨[], []⟩ []⟩ (body ++ ['\n']) := by
      rw [readFrom_append]
      rfl
    rw [List.append_assoc, List.append_assoc, List.cons_append, readFrom_name hother rfl]
    exact hmark
  obtain ⟨⟨mode, last⟩, hread, hlast⟩ := Option.bind_eq_some_iff.mp h
  split_ifs at hlast with hcomplete
  cases hlast
  rw [hdefines hname] at hread
  obtain ⟨lexed, hlexed, hparse⟩ := Option.bind_eq_some_iff.mp hread
  obtain ⟨state, hstate, hsame⟩ := Option.map_eq_some_iff.mp hparse
  cases hsame
  obtain ⟨later, expr, hrules, hothers⟩ := parseFrom_body hstate hcomplete.2
  refine ⟨later, expr, hrules, fun other hother => ?_⟩
  rw [readRules, hdefines hother, readFrom, hlexed, Option.bind_some, hothers, Option.map_some,
    Option.bind_some]
  exact if_pos ⟨hcomplete.1, rfl⟩

/-! ### Rules by their names -/

/-- The rule of a name, if there is one rule for each name. -/
theorem lookup_reverse {rules : Rules} (hnodup : (rules.map Prod.fst).Nodup) {name : List Char}
    {body : Expr} (h : (name, body) ∈ rules) : rules.reverse.lookup name = some body := by
  obtain ⟨front, back, rfl⟩ := List.append_of_mem h
  rw [List.lookup_eq_some_iff]
  refine ⟨back.reverse, front.reverse, by simp, ?_⟩
  intro rule hrule
  rw [List.map_append, List.map_cons] at hnodup
  have hnot := (List.nodup_cons.mp (List.nodup_append.mp hnodup).2.1).1
  rw [bne_iff_ne]
  rintro rfl
  exact hnot (List.mem_map.mpr ⟨rule, List.mem_reverse.mp hrule, rfl⟩)

end Gbnf
