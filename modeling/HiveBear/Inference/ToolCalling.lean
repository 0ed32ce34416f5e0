/-
# Tool calls

A model that may call tools is held to a grammar, and what it has written is read as JSON. The
grammar derives loose JSON: a string may hold any character and any escape, a number may begin with
zeros, and the names of the tools are put into the grammar as they are.

So not every text that the grammar derives is read as a call. With names that the notation of
grammars and that of JSON leave alone, a text is read as the call that is written in it just if its
object is strict.
-/

import HiveBear.Inference.ChatTemplate
import HiveBear.Library.GbnfText
import HiveBear.Library.JsonGrammar
import HiveBear.Library.JsonReader
import HiveBear.Library.Texts
import Mathlib.Data.List.Forall2

namespace HiveBear.Inference

open JsonText Gbnf

/-! ## The grammar -/

/-- The literal of the name of a tool, between quotation marks. -/
def toolNameLiteral (tool : ToolDefinition) : String := "\"\\\"" ++ tool.name ++ "\\\"\""

/-- The rules up to the comma of a call. -/
def toolGrammarStart : String :=
  "root ::= tool-call | free-text
free-text ::= [^\\x00]\x7b1,4096\x7d
tool-call ::= \"\x7b\" ws \"\\\"tool\\\"\" ws \":\" ws tool-name ws \",\" "

/-- The arguments of a call, up to the names of the tools. -/
def toolGrammarArguments : String :=
  "ws \"\\\"arguments\\\"\" ws \":\" ws object ws \"\x7d\"
tool-name ::= "

/-- The rules in front of the names of the tools. -/
def toolGrammarHead : String := toolGrammarStart ++ toolGrammarArguments

/-- The rules behind the names of the tools. -/
def toolGrammarTail : String :=
  "object ::= \"\x7b\" ws (pair (\",\" ws pair)*)? ws \"\x7d\"
pair ::= string ws \":\" ws value
value ::= string | number | \"true\" | \"false\" | \"null\" | object | array
array ::= \"[\" ws (value (\",\" ws value)*)? ws \"]\"
string ::= \"\\\"\" ([^\"\\\\] | \"\\\\\" .)* \"\\\"\"
number ::= \"-\"? [0-9]+ (\".\" [0-9]+)? ((\"e\" | \"E\") (\"+\" | \"-\")? [0-9]+)?
ws ::= [ \\t\\n\\r]*
"

/-- The text of the grammar of tool calls. -/
def generateToolGrammar (tools : List ToolDefinition) : String :=
  if tools.isEmpty then ""
  else toolGrammarHead ++ " | ".intercalate (tools.map toolNameLiteral) ++ "\n" ++ toolGrammarTail

/-! ## The parser -/

/-- The field of a name. Of two with one name the later one counts. -/
def getField (fields : List (List Char × Value)) (key : String) : Option Value :=
  fields.reverse.lookup key.toList

def asStr : Value → Option String
  | .str text => some (String.ofList text)
  | _ => none

/-- Read what a model has written as the call of a tool. -/
def parseToolCall (callId : String) (output : String) : Option ToolCallResponse :=
  match fromStr (Texts.trim output.toList) with
  | some (.obj fields) =>
      let name := ((getField fields "tool").or (getField fields "name")).or
        (getField fields "function")
      let arguments := ((getField fields "arguments").or (getField fields "parameters")).or
        (getField fields "args")
      (name.bind asStr).map fun toolName =>
        { toolName := toolName, arguments := arguments.getD (.obj []), callId := callId }
  | _ => none

/-! ## The rules -/

def wsRule : Expr := .rule "ws".toList

def toolRulesBefore : Rules := [
  ("tool-call".toList, seq [.text ['\x7b'], wsRule, .text "\"tool\"".toList, wsRule, .text [':'],
    wsRule, .rule "tool-name".toList, wsRule, .text [','], wsRule, .text "\"arguments\"".toList,
    wsRule, .text [':'], wsRule, .rule "object".toList, wsRule, .text ['\x7d']]),
  ("free-text".toList, seq [.rep (.one ⟨true, [(Char.ofNat 0, Char.ofNat 0)]⟩) 1 (some 4096)]),
  ("root".toList, choice [seq [.rule "tool-call".toList], seq [.rule "free-text".toList]])]

def objectExpr : Expr := bracketExpr wsRule '\x7b' '\x7d' (listExpr wsRule (.rule "pair".toList))

def pairExpr : Expr :=
  seq [.rule "string".toList, wsRule, .text [':'], wsRule, .rule "value".toList]

def valueExpr : Expr :=
  choice [seq [.rule "string".toList], seq [.rule "number".toList], seq [.text "true".toList],
    seq [.text "false".toList], seq [.text "null".toList], seq [.rule "object".toList],
    seq [.rule "array".toList]]

def arrayExpr : Expr := bracketExpr wsRule '[' ']' (listExpr wsRule (.rule "value".toList))

def toolRulesAfter : Rules := [
  ("ws".toList, spaceExpr),
  ("number".toList, numberExpr),
  ("string".toList, stringExpr),
  ("array".toList, arrayExpr),
  ("value".toList, valueExpr),
  ("pair".toList, pairExpr),
  ("object".toList, objectExpr)]

/-- The rule of the names of the tools. -/
def toolNameExpr (names : List (List Char)) : Expr :=
  choice (names.map fun name => seq [.text ('"' :: (name ++ ['"']))])

/-- The rules of the grammar of tool calls. -/
def toolRules (names : List (List Char)) : Rules :=
  toolRulesAfter ++ ("tool-name".toList, toolNameExpr names) :: toolRulesBefore

theorem readFrom_head : readFrom .plain ⟨[], .between⟩ toolGrammarHead.toList =
    some (.plain, ⟨toolRulesBefore, .body "tool-name".toList ⟨[], []⟩ []⟩) := by
  rw [toolGrammarHead, String.toList_append, toolGrammarStart, toolGrammarArguments]
  apply readFrom_ofList_append
  decide +kernel

theorem readFrom_tail : readFrom .plain ⟨[], .between⟩ toolGrammarTail.toList =
    some (.plain, ⟨toolRulesAfter, .between⟩) := by
  rw [toolGrammarTail]
  apply readFrom_ofList
  decide +kernel

theorem readFrom_names {names : List (List Char)} (hne : names ≠ [])
    (hplain : ∀ name ∈ names, Plain name) (rules : Rules) (rule : List Char)
    (alts : List Expr) :
    readFrom .plain ⟨rules, .body rule ⟨alts, []⟩ []⟩ ([' ', '|', ' '].intercalate
        (names.map fun name => ['"', '\\', '"'] ++ name ++ ['\\', '"', '"']) ++ ['\n']) =
      some (.plain, ⟨(rule, choice (alts.reverse ++
        names.map fun name => seq [.text ('"' :: (name ++ ['"']))])) :: rules, .between⟩) := by
  have hliterals : ∀ alternative ∈ names.map fun name =>
      (['"', '\\', '"'] ++ name ++ ['\\', '"', '"'], [Expr.text ('"' :: (name ++ ['"']))]),
        Denotes alternative.1 alternative.2 ∧ alternative.2 ≠ [] :=
    List.forall_mem_map.mpr fun name hname =>
      ⟨(completes_string (hplain name hname)).denotes, List.cons_ne_nil _ _⟩
  have hread := readFrom_alternatives (by simpa using hne) hliterals rules rule alts
  rw [List.map_map, List.map_map] at hread
  exact hread

/-- The text of the names of the tools. -/
theorem toList_toolNames (tools : List ToolDefinition) :
    (" | ".intercalate (tools.map toolNameLiteral)).toList = [' ', '|', ' '].intercalate
      ((tools.map fun tool => tool.name.toList).map
        fun name => ['"', '\\', '"'] ++ name ++ ['\\', '"', '"']) := by
  have hliteral (tool : ToolDefinition) : (toolNameLiteral tool).toList =
      ['"', '\\', '"'] ++ tool.name.toList ++ ['\\', '"', '"'] := by
    rw [toolNameLiteral, String.toList_append, String.toList_append]
    rfl
  rw [String.toList_intercalate, List.map_map, List.map_map]
  exact congrArg _ (List.map_congr_left fun tool _ => hliteral tool)

/-- The names that the rules use are those of rules. -/
theorem toolRules_closed (names : List (List Char)) : ∀ rule ∈ toolRules names,
    ∀ name ∈ rule.2.names, name ∈ (toolRules names).map Prod.fst := by
  have hnone : (toolNameExpr names).names = [] := by
    rw [toolNameExpr]
    induction names with
    | nil => rfl
    | cons first more ih =>
        cases more with
        | nil => rfl
        | cons second more => exact ih
  have hkeys : (toolRules names).map Prod.fst = (toolRules []).map Prod.fst := rfl
  have hclosed : ∀ rule ∈ toolRulesAfter ++ toolRulesBefore,
      ∀ name ∈ rule.2.names, name ∈ (toolRules []).map Prod.fst := by
    decide +kernel
  rw [hkeys]
  intro rule hrule
  rw [toolRules, List.mem_append, List.mem_cons] at hrule
  rcases hrule with hafter | rfl | hbefore
  · exact hclosed rule (List.mem_append_left _ hafter)
  · rw [hnone]
    exact List.forall_mem_nil _
  · exact hclosed rule (List.mem_append_right _ hbefore)

/-- **The text of the grammar is read as the rules of tool calls**, if the names of the tools are
plain. -/
theorem read_generateToolGrammar {tools : List ToolDefinition} (hne : tools ≠ [])
    (hplain : ∀ tool ∈ tools, Plain tool.name.toList) :
    read (generateToolGrammar tools).toList =
      some (toolRules (tools.map fun tool => tool.name.toList)) := by
  have hnames := @readFrom_names (tools.map fun tool => tool.name.toList) (by simpa using hne)
    (List.forall_mem_map.mpr hplain) toolRulesBefore "tool-name".toList []
  have htext : (generateToolGrammar tools).toList ++ ['\n'] = toolGrammarHead.toList ++
      ((" | ".intercalate (tools.map toolNameLiteral)).toList ++ ['\n'] ++
        (toolGrammarTail.toList ++ ['\n'])) := by
    rw [generateToolGrammar, if_neg (by simpa using hne), String.toList_append,
      String.toList_append, String.toList_append]
    simp only [List.append_assoc]
    rfl
  rw [Gbnf.read, htext, toList_toolNames, readFrom_trans readFrom_head (readFrom_trans hnames
    (readFrom_trans (readFrom_under readFrom_tail _) rfl)), Option.bind_some]
  exact if_pos ⟨rfl, rfl, toolRules_closed _⟩

/-! ## What the rules derive -/

section

variable {names : List (List Char)} {s : List Char}

/-- The rules behind the names of the tools do not depend on them. -/
theorem derives_toolRule {rule : List Char} {body : Expr}
    (h : toolRulesAfter.lookup rule = some body) :
    Derives (toolRules names) (.rule rule) s ↔ Derives (toolRules names) body s := by
  apply derives_rule
  rw [toolRules, List.lookup_append, h]
  rfl

theorem derives_wsRule :
    Derives (toolRules names) wsRule s ↔ ∃ space : Space, s = space.text :=
  (derives_toolRule rfl).trans derives_spaceExpr

theorem derives_stringRule : Derives (toolRules names) (.rule "string".toList) s ↔
    ∃ letters : List Letter, s = lettersText letters :=
  (derives_toolRule rfl).trans derives_stringExpr

theorem derives_numberRule : Derives (toolRules names) (.rule "number".toList) s ↔
    ∃ number : Number, s = number.text :=
  (derives_toolRule rfl).trans derives_numberExpr

theorem derives_pairRule : Derives (toolRules names) (.rule "pair".toList) s ↔
    ∃ key, ∃ beforeColon afterColon : Space, ∃ value,
      s = lettersText key ++ (beforeColon.text ++ (':' :: (afterColon.text ++ value))) ∧
        Derives (toolRules names) (.rule "value".toList) value := by
  rw [@derives_toolRule _ _ _ pairExpr rfl]
  simp only [pairExpr, derives_seq_cons, derives_seq_nil, derives_text_iff, derives_stringRule,
    derives_wsRule]
  constructor
  · rintro ⟨_, _, rfl, ⟨key, rfl⟩, _, _, rfl, ⟨beforeColon, rfl⟩, _, _, rfl, rfl, _, _, rfl,
      ⟨afterColon, rfl⟩, value, _, rfl, hvalue, rfl⟩
    exact ⟨key, beforeColon, afterColon, value, by simp, hvalue⟩
  · rintro ⟨key, beforeColon, afterColon, value, rfl, hvalue⟩
    exact ⟨_, _, rfl, ⟨key, rfl⟩, _, _, rfl, ⟨beforeColon, rfl⟩, [':'], _, rfl, rfl, _, _, rfl,
      ⟨afterColon, rfl⟩, value, [], (List.append_nil _).symm, hvalue, rfl⟩

/-- What is derived for an object is one, if what is shorter and derived for a value is a tree. -/
theorem exists_objectTree (hvalue : ∀ t, t.length < s.length →
      Derives (toolRules names) (.rule "value".toList) t → IsTree t)
    (h : Derives (toolRules names) (.rule "object".toList) s) :
    ∃ space fields, s = (Tree.obj space fields).text := by
  rw [@derives_toolRule _ _ _ objectExpr rfl] at h
  refine exists_obj (fun _ => derives_wsRule) ?_ h
  intro t hlength hpair
  obtain ⟨key, beforeColon, afterColon, value, rfl, hderives⟩ := derives_pairRule.mp hpair
  simp only [List.length_append, List.length_cons] at hlength
  obtain ⟨tree, rfl⟩ := hvalue value (by omega) hderives
  exact ⟨⟨key, beforeColon, afterColon, tree⟩, rfl⟩

/-- **What is derived for a value is the text of a tree.** -/
theorem isTree_of_derives (h : Derives (toolRules names) (.rule "value".toList) s) : IsTree s := by
  induction hlength : s.length using Nat.strong_induction_on generalizing s with
  | _ n ih =>
      have hshort (t : List Char) (ht : t.length < s.length)
          (hderives : Derives (toolRules names) (.rule "value".toList) t) : IsTree t :=
        ih t.length (hlength ▸ ht) hderives rfl
      rw [@derives_toolRule _ _ _ valueExpr rfl, valueExpr,
        derives_choice (List.cons_ne_nil _ _)] at h
      simp only [List.exists_mem_cons_iff, List.not_mem_nil, false_and, exists_false, or_false,
        derives_seq_singleton, derives_text_iff, derives_stringRule, derives_numberRule] at h
      rcases h with ⟨letters, rfl⟩ | ⟨number, rfl⟩ | rfl | rfl | rfl | hobject | harray
      · exact ⟨.str letters, rfl⟩
      · exact ⟨.num number, rfl⟩
      · exact ⟨.bool true, rfl⟩
      · exact ⟨.bool false, rfl⟩
      · exact ⟨.null, rfl⟩
      · obtain ⟨space, fields, hs⟩ := exists_objectTree hshort hobject
        exact ⟨.obj space fields, hs⟩
      · rw [@derives_toolRule _ _ _ arrayExpr rfl] at harray
        obtain ⟨space, items, hs⟩ := exists_arr (fun _ => derives_wsRule) hshort harray
        exact ⟨.arr space items, hs⟩

/-! ### Calls -/

def toolKey : List Letter := plainLetters "tool".toList (by decide)

def argumentsKey : List Letter := plainLetters "arguments".toList (by decide)

/-- A text is that of a call of a tool, with the tree of an object as its arguments. -/
def IsCall (s name : List Char) (arguments : Tree) : Prop :=
  (∃ space fields, arguments = .obj space fields) ∧ ∃ hname : Plain name, ∃ written : Fields,
    written.entries = [(toolKey, .str (plainLetters name hname)), (argumentsKey, arguments)] ∧
      s = (Tree.obj .none written).text

theorem derives_toolNameRule (hne : names ≠ []) :
    Derives (toolRules names) (.rule "tool-name".toList) s ↔
      ∃ name ∈ names, s = '"' :: (name ++ ['"']) := by
  have hlookup : (toolRules names).lookup "tool-name".toList = some (toolNameExpr names) := by
    have hafter : toolRulesAfter.lookup "tool-name".toList = none := rfl
    rw [toolRules, List.lookup_append, hafter]
    rfl
  rw [derives_rule hlookup, toolNameExpr, derives_choice (by simpa using hne)]
  simp

/-- The places of the two fields of a call. -/
def callSlots (names : List (List Char)) : List Slot := [
  { key := toolKey
    value := .rule "tool-name".toList
    trees := fun tree => ∃ name ∈ names, ∃ hname : Plain name,
      tree = .str (plainLetters name hname) },
  { key := argumentsKey
    value := .rule "object".toList
    trees := fun tree => (∃ space fields, tree = .obj space fields) ∧
      Derives (toolRules names) (.rule "object".toList) tree.text }]

theorem describes_callSlots (hne : names ≠ []) (hplain : ∀ name ∈ names, Plain name) :
    ∀ slot ∈ callSlots names, Describes (toolRules names) slot.value slot.trees := by
  simp only [callSlots, List.forall_mem_cons]
  refine ⟨fun t => ?_, fun t => ?_, List.forall_mem_nil _⟩
  · dsimp only
    rw [derives_toolNameRule hne]
    constructor
    · rintro ⟨name, hmem, rfl⟩
      exact ⟨_, ⟨name, hmem, hplain name hmem, rfl⟩, (lettersText_plainLetters _).symm⟩
    · rintro ⟨_, ⟨name, hmem, hname, rfl⟩, rfl⟩
      exact ⟨name, hmem, lettersText_plainLetters hname⟩
  · constructor
    · intro h
      obtain ⟨space, fields, rfl⟩ := exists_objectTree (fun _ _ => isTree_of_derives) h
      exact ⟨_, ⟨⟨space, fields, rfl⟩, h⟩, rfl⟩
    · rintro ⟨tree, ⟨-, h⟩, rfl⟩
      exact h

theorem derives_toolCallRule (hne : names ≠ []) (hplain : ∀ name ∈ names, Plain name) :
    Derives (toolRules names) (.rule "tool-call".toList) s ↔ ∃ written : Fields,
      s = (Tree.obj .none written).text ∧
        List.Forall₂ Fills (callSlots names) written.entries := by
  have hlookup : (toolRules names).lookup "tool-call".toList =
      some (recordExpr wsRule (callSlots names)) := by
    have hafter : toolRulesAfter.lookup "tool-call".toList = none := rfl
    rw [toolRules, List.lookup_append, hafter]
    rfl
  rw [derives_rule hlookup]
  exact derives_recordExpr (fun _ => derives_wsRule) (describes_callSlots hne hplain)

/-- **What is derived for a call is one**, of one of the tools. -/
theorem exists_isCall (hne : names ≠ []) (hplain : ∀ name ∈ names, Plain name)
    (h : Derives (toolRules names) (.rule "tool-call".toList) s) :
    ∃ name ∈ names, ∃ arguments, IsCall s name arguments := by
  obtain ⟨written, rfl, hfields⟩ := (derives_toolCallRule hne hplain).mp h
  obtain ⟨⟨name, value⟩, _, ⟨rfl, htool⟩, hmore, hentries⟩ := List.forall₂_cons_left_iff.mp hfields
  obtain ⟨⟨key, arguments⟩, _, ⟨rfl, hobject, -⟩, hnone, rfl⟩ :=
    List.forall₂_cons_left_iff.mp hmore
  obtain rfl := List.forall₂_nil_left_iff.mp hnone
  obtain ⟨name, hmem, hname, rfl⟩ := htool
  exact ⟨name, hmem, arguments, hobject, hname, written, hentries, rfl⟩

end

/-! ## Agreement -/

/-- **A call is read as what is written in it**, if there are no control characters in the name and
the arguments are strict. -/
theorem parseToolCall_isCall {s name : List Char} {arguments : Tree} (h : IsCall s name arguments)
    (callId : String) :
    parseToolCall callId (String.ofList s) = if Printed name then
      arguments.value.map fun value => ⟨String.ofList name, value, callId⟩ else none := by
  obtain ⟨-, hname, written, hentries, rfl⟩ := h
  have htrim : Texts.trim (Tree.obj .none written).text = (Tree.obj .none written).text := by
    have htext : (Tree.obj .none written).text = '\x7b' :: (written.text ++ ['\x7d']) := by
      simp [Tree.text, Space.none]
    have hopen : Texts.isRustSpace '\x7b' = false := by decide
    have hclose : Texts.isRustSpace '\x7d' = false := by decide
    rw [htext, Texts.trim, List.dropWhile_cons, hopen, if_neg Bool.false_ne_true,
      ← List.cons_append, List.rdropWhile_concat_neg _ _ _ (by simp [hclose])]
  have hvalues : written.values = (if Printed name then arguments.value.map fun value =>
      [("tool".toList, .str name), ("arguments".toList, value)] else none) := by
    have htool : unescape toolKey = some "tool".toList := rfl
    have harguments : unescape argumentsKey = some "arguments".toList := rfl
    rw [written.values_eq, hentries]
    simp only [List.mapM_cons, List.mapM_nil, htool, harguments, Tree.value, unescape_plainLetters]
    split_ifs
    · cases arguments.value <;> rfl
    · rfl
  have hread : fromStr (Tree.obj .none written).text = written.values.map .obj := by
    have htext := fromStr_text .none (.obj .none written) .none
    rwa [Space.none, List.nil_append, List.append_nil, Tree.value] at htext
  rw [parseToolCall, String.toList_ofList, htrim, hread, hvalues]
  split_ifs with hprinted
  · cases arguments.value with
    | none => rfl
    | some value => rfl
  · rfl

/-- What a tool call should be read as: a call of one of the tools, with the arguments that are
written. -/
def IsReadAs (tools : List ToolDefinition) (arguments : Tree) (read : Option ToolCallResponse) :
    Prop :=
  ∃ response, read = some response ∧ (∃ tool ∈ tools, response.toolName = tool.name) ∧
    some response.arguments = arguments.value

/-- **The grammar of tool calls and their parser agree just on strict calls.** With names that are
plain, every text that the grammar derives is a call of a tool with an object as its arguments; and
it is read as this call if and only if there are no control characters in the name and the object
is JSON. -/
theorem parseToolCall_iff {tools : List ToolDefinition} (hne : tools ≠ [])
    (hplain : ∀ tool ∈ tools, Plain tool.name.toList) :
    ∃ rules, read (generateToolGrammar tools).toList = some rules ∧
      ∀ s callId, Derives rules (.rule "tool-call".toList) s →
        (∃ tool ∈ tools, ∃ arguments, IsCall s tool.name.toList arguments) ∧
        ∀ tool ∈ tools, ∀ arguments, IsCall s tool.name.toList arguments →
          (IsReadAs tools arguments (parseToolCall callId (String.ofList s)) ↔
            Printed tool.name.toList ∧ arguments.Strict) := by
  refine ⟨_, read_generateToolGrammar hne hplain, fun s callId hs => ⟨?_, ?_⟩⟩
  · obtain ⟨name, hname, arguments, hcall⟩ := exists_isCall (by simpa using hne)
      (List.forall_mem_map.mpr hplain) hs
    obtain ⟨tool, htool, rfl⟩ := List.mem_map.mp hname
    exact ⟨tool, htool, arguments, hcall⟩
  · intro tool htool arguments hcall
    rw [parseToolCall_isCall hcall callId, IsReadAs, ← arguments.isSome_value,
      Option.isSome_iff_exists]
    split_ifs with hprinted
    · constructor
      · rintro ⟨response, hresponse, -, -⟩
        obtain ⟨value, hvalue, -⟩ := Option.map_eq_some_iff.mp hresponse
        exact ⟨hprinted, value, hvalue⟩
      · rintro ⟨-, value, hvalue⟩
        rw [hvalue]
        exact ⟨_, rfl, ⟨tool, htool, String.ofList_toList⟩, rfl⟩
    · simp [hprinted]

def searchTool : ToolDefinition := ⟨"search", "Search", .obj []⟩

/-- Calls of the tool `search`. -/
theorem parseToolCall_search :
    ∃ rules, read (generateToolGrammar [searchTool]).toList = some rules ∧
      ∀ s callId, Derives rules (.rule "tool-call".toList) s →
        (∃ tool ∈ [searchTool], ∃ arguments, IsCall s tool.name.toList arguments) ∧
        ∀ tool ∈ [searchTool], ∀ arguments, IsCall s tool.name.toList arguments →
          (IsReadAs [searchTool] arguments (parseToolCall callId (String.ofList s)) ↔
            Printed tool.name.toList ∧ arguments.Strict) :=
  parseToolCall_iff (List.cons_ne_nil _ _) (Texts.forall_mem_of_all rfl)

/-- A call with a number that begins with a zero. -/
def zeroCall : String := "\x7b\"tool\":\"search\",\"arguments\":\x7b\"n\":01\x7d\x7d"

/-- **The grammar derives a call that is not read.** -/
theorem parseToolCall_zeroCall :
    ∃ rules, read (generateToolGrammar [searchTool]).toList = some rules ∧
      Derives rules (.rule "tool-call".toList) zeroCall.toList ∧
        ∀ callId, parseToolCall callId zeroCall = none := by
  refine ⟨_, read_generateToolGrammar (List.cons_ne_nil _ _)
    (Texts.forall_mem_of_all rfl), ?_, ?_⟩
  · let key : Field := ⟨plainLetters ['n'] (by decide), .none, .none,
      .num ⟨false, ⟨['0', '1'], by decide, Texts.forall_mem_of_all rfl⟩, none, none⟩⟩
    have hpair : Derives (toolRules ["search".toList]) (.rule "pair".toList) key.text := by
      refine derives_pairRule.mpr ⟨_, _, _, _, rfl, ?_⟩
      rw [@derives_toolRule _ _ _ valueExpr rfl, valueExpr,
        derives_choice (List.cons_ne_nil _ _)]
      exact ⟨_, List.mem_cons_of_mem _ List.mem_cons_self,
        derives_seq_singleton.mpr (derives_numberRule.mpr ⟨_, rfl⟩)⟩
    have hobject : Derives (toolRules ["search".toList]) (.rule "object".toList)
        (Tree.obj .none (.laid .none key [] .none)).text := by
      rw [@derives_toolRule _ _ _ objectExpr rfl, objectExpr,
        derives_bracketExpr (fun _ => derives_wsRule)]
      refine ⟨.none, .none, key.text, rfl, ?_⟩
      rw [derives_listExpr (fun _ => derives_wsRule)]
      exact Or.inr ⟨key.text, [], (List.append_nil _).symm, hpair, List.forall_mem_nil _⟩
    refine (derives_toolCallRule (List.cons_ne_nil _ _)
        (Texts.forall_mem_of_all rfl)).mpr
      ⟨.cons .none toolKey .none .none (.str (plainLetters "search".toList (by decide))) .none
        (.cons .none argumentsKey .none .none (.obj .none (.laid .none key [] .none)) .none .nil),
        rfl, ?_⟩
    exact .cons ⟨rfl, _, List.mem_cons_self, by decide, rfl⟩
      (.cons ⟨rfl, ⟨_, _, rfl⟩, hobject⟩ .nil)
  · intro callId
    have hread : fromStr (Texts.trim zeroCall.toList) = none :=
      Option.isNone_iff_eq_none.mp (by decide +kernel)
    rw [parseToolCall, hread]

end HiveBear.Inference
