/-
# What of a conversation is in its prompt

A prompt holds the texts of all messages, those of the user, the assistant and the tools in their
order, and the descriptions of all tools. That is so as long as the template has a place for them.

The Mistral template has a place for one message of the system. The tools stand behind a message of
the system, and only two templates make one up when there is none.

What has no place does not change the prompt, so it is in it by chance at most.
-/

import HiveBear.Inference.ChatTemplate
import HiveBear.Library.Occurrences

namespace HiveBear.Inference

open JsonText

/-! ## Kept and accommodated -/

/-- The prompt holds all texts of the conversation. -/
structure Kept (format : TemplateFormat) (messages : List ChatMessage)
    (tools : List ToolDefinition) : Prop where
  texts : ∀ message ∈ messages, message.text.Occurs (render messages tools format)
  inOrder : InOrder ((messages.filter (!·.isSystem)).map fun message => message.text.toList)
    (render messages tools format).toList
  descriptions : ∀ tool ∈ tools, tool.description.Occurs (render messages tools format)

/-- The template has a place for all messages with these roles, and for so many tools. -/
structure Accommodates (format : TemplateFormat) (roles : List Role) (toolCount : ℕ) : Prop where
  system : format = .mistral → roles.count .system ≤ 1
  tools : 0 < toolCount → .system ∈ roles ∨ format = .llama3 ∨ format = .chatML

theorem role_eq_system_iff (message : ChatMessage) :
    message.role = .system ↔ message.isSystem = true := by
  cases message <;> simp [ChatMessage.role, ChatMessage.isSystem]

theorem any_isSystem_iff (messages : List ChatMessage) :
    messages.any ChatMessage.isSystem = true ↔ .system ∈ messages.map ChatMessage.role := by
  rw [List.any_eq_true, List.mem_map]
  simp only [role_eq_system_iff]

/-! ## Pieces of a prompt -/

section

variable (tools : List ToolDefinition)

/-- Behind a message of the system every tool is described. -/
theorem description_occurs {tool : ToolDefinition} (h : tool ∈ tools) :
    tool.description.Occurs (toolSystemPrompt tools) := by
  rw [toolSystemPrompt, if_neg (List.ne_nil_of_mem h)]
  dsimp only
  apply String.Occurs.append_right
  apply String.Occurs.append_right
  apply String.Occurs.append_left
  apply String.Occurs.trans _ (String.occurs_intercalate (List.mem_map_of_mem h) "\n")
  rw [String.append_assoc, String.append_assoc]
  exact String.occurs_between _ _ _

theorem text_occurs_pushTurn (header : String → String) (last : String) (message : ChatMessage) :
    message.text.Occurs (pushTurn tools header last message) := by
  cases message with
  | system text => exact (String.occurs_between _ text _).append_right _
  | user parts => exact String.occurs_between _ (ChatMessage.user parts).text _
  | assistant content => exact String.occurs_between _ (content.getD "") _
  | toolResult _ content => exact String.occurs_between _ content _

theorem text_occurs_llama3Push (message : ChatMessage) :
    message.text.Occurs (llama3Push tools message) :=
  text_occurs_pushTurn tools _ _ message

theorem text_occurs_chatmlPush (message : ChatMessage) :
    message.text.Occurs (chatmlPush tools message) :=
  text_occurs_pushTurn tools _ _ message

theorem text_occurs_genericPush (message : ChatMessage) :
    message.text.Occurs (genericPush tools message) :=
  text_occurs_pushTurn tools _ _ message

theorem text_occurs_gemmaPush (message : ChatMessage) :
    message.text.Occurs (gemmaPush tools message) := by
  cases message with
  | system text => exact (String.occurs_between _ text _).append_right _
  | user parts => exact String.occurs_between _ (ChatMessage.user parts).text _
  | assistant content => exact String.occurs_between _ (content.getD "") _
  | toolResult _ content => exact String.occurs_between _ content _

theorem text_occurs_phi3Push (message : ChatMessage) :
    message.text.Occurs (phi3Push tools message) := by
  cases message with
  | system text => exact (String.occurs_between _ text _).append_right _
  | user parts => exact String.occurs_between _ (ChatMessage.user parts).text _
  | assistant content => exact String.occurs_between _ (content.getD "") _
  | toolResult _ content => exact String.occurs_between _ content _

/-- What is pushed for a message, where every message is pushed. -/
def pushMessage (format : TemplateFormat) : ChatMessage → String :=
  match format with
  | .llama3 => llama3Push tools
  | .chatML => chatmlPush tools
  | .gemma => gemmaPush tools
  | .phi3 => phi3Push tools
  | .mistral | .generic => genericPush tools

/-- It holds the text of the message. -/
theorem text_occurs_pushMessage (format : TemplateFormat) (message : ChatMessage) :
    message.text.Occurs (pushMessage tools format message) := by
  cases format with
  | llama3 => exact text_occurs_llama3Push tools message
  | chatML => exact text_occurs_chatmlPush tools message
  | mistral | generic => exact text_occurs_genericPush tools message
  | gemma => exact text_occurs_gemmaPush tools message
  | phi3 => exact text_occurs_phi3Push tools message

/-- For a message of the system it holds the tools. -/
theorem toolSystemPrompt_occurs_pushMessage (format : TemplateFormat) {message : ChatMessage}
    (h : message.isSystem = true) :
    (toolSystemPrompt tools).Occurs (pushMessage tools format message) := by
  cases message with
  | user | assistant | toolResult => cases h
  | system => cases format <;> exact String.occurs_between _ (toolSystemPrompt tools) _

/-- For other messages it is the same without the tools. -/
theorem pushMessage_congr (tools' : List ToolDefinition) (format : TemplateFormat)
    {message : ChatMessage} (h : message.isSystem = false) :
    pushMessage tools format message = pushMessage tools' format message := by
  cases message with
  | system => cases h
  | user | assistant | toolResult => cases format <;> rfl

/-- What stands in front of the messages. -/
def promptFront (format : TemplateFormat) (messages : List ChatMessage) : String :=
  match format with
  | .llama3 =>
      "<|begin_of_text|>" ++
        if lacksSystem messages tools then
          "<|start_header_id|>system<|end_header_id|>\n\nYou are a helpful assistant." ++
            toolSystemPrompt tools ++ "<|eot_id|>"
        else ""
  | .chatML =>
      if lacksSystem messages tools then
        "<|im_start|>system\nYou are a helpful assistant." ++ toolSystemPrompt tools ++
          "<|im_end|>\n"
      else ""
  | _ => ""

/-- What stands behind them. -/
def promptLast : TemplateFormat → String
  | .llama3 => "<|start_header_id|>assistant<|end_header_id|>\n\n"
  | .chatML => "<|im_start|>assistant\n"
  | .gemma => "<start_of_turn>model\n"
  | .phi3 | .generic => "<|assistant|>\n"
  | .mistral => ""

/-- All templates but one push the messages, each on its own. -/
theorem render_eq_pushMessage {format : TemplateFormat} (hformat : format ≠ .mistral)
    (messages : List ChatMessage) :
    render messages tools format =
      promptFront tools format messages ++ String.join (messages.map (pushMessage tools format)) ++
        promptLast format := by
  cases format with
  | mistral => exact absurd rfl hformat
  | llama3 | chatML => rfl
  | gemma | phi3 | generic =>
      have hfront (pushed : String) : "" ++ pushed = pushed := String.empty_append
      exact congrArg (· ++ _) (hfront _).symm

/-- The prompts of these templates hold what the front or a message holds. -/
theorem occurs_render {format : TemplateFormat} (hformat : format ≠ .mistral) {text : String}
    {messages : List ChatMessage}
    (h : text.Occurs (promptFront tools format messages) ∨
      ∃ message ∈ messages, text.Occurs (pushMessage tools format message)) :
    text.Occurs (render messages tools format) := by
  rw [render_eq_pushMessage tools hformat]
  apply String.Occurs.append_right
  rcases h with hfront | ⟨message, hmessage, hpush⟩
  · exact hfront.append_right _
  · apply String.Occurs.append_left
    have hjoin : (pushMessage tools format message).Occurs
        (String.join (messages.map (pushMessage tools format))) := by
      rw [String.Occurs, String.toList_join, List.flatMap_def]
      apply List.infix_of_mem_flatten
      exact List.mem_map_of_mem (List.mem_map_of_mem hmessage)
    exact hpush.trans hjoin

/-- If no message is one of the system, the tools stand in front. -/
theorem toolSystemPrompt_occurs_front {format : TemplateFormat}
    (hformat : format = .llama3 ∨ format = .chatML) {messages : List ChatMessage}
    (hlacks : lacksSystem messages tools = true) :
    (toolSystemPrompt tools).Occurs (promptFront tools format messages) := by
  rcases hformat with rfl | rfl
  · have hfront : promptFront tools .llama3 messages = _ :=
      congrArg ("<|begin_of_text|>" ++ ·) (if_pos hlacks)
    rw [hfront]
    exact (String.occurs_between _ (toolSystemPrompt tools) _).append_left _
  · have hfront : promptFront tools .chatML messages = _ := if_pos hlacks
    rw [hfront]
    exact String.occurs_between _ (toolSystemPrompt tools) _

end

/-! ## The Mistral template -/

section

variable (systemText : Option String)

/-- What is pushed for a message that is not one of the system holds its text. -/
theorem text_occurs_mistralPush (firstUser : Bool) {message : ChatMessage}
    (h : message.isSystem = false) :
    message.text.Occurs (mistralPush systemText firstUser message) := by
  cases message with
  | system => cases h
  | assistant content => exact String.occurs_between _ (content.getD "") _
  | toolResult _ content => exact String.occurs_between _ content _
  | user parts =>
      have hbetween (first : String) : (ChatMessage.user parts).text.Occurs
          (first ++ (ChatMessage.user parts).text ++ " [/INST]") :=
        String.occurs_between _ _ _
      cases firstUser with
      | false => exact hbetween _
      | true => cases systemText <;> exact hbetween _

theorem inOrder_renderMistralFrom (firstUser : Bool) (messages : List ChatMessage) :
    InOrder ((messages.filter (!·.isSystem)).map fun message => message.text.toList)
      (renderMistralFrom systemText firstUser messages).toList := by
  induction messages generalizing firstUser with
  | nil => trivial
  | cons message messages ih =>
      rw [renderMistralFrom, String.toList_append]
      cases hsystem : message.isSystem with
      | true =>
          rw [List.filter_cons_of_neg (by simp [hsystem])]
          exact (ih _).append_left _
      | false =>
          rw [List.filter_cons_of_pos (by simp [hsystem]), List.map_cons]
          have hone := InOrder.singleton (text_occurs_mistralPush systemText firstUser hsystem)
          exact hone.append (ih _)

/-- The text of the system stands in front of the first text of the user. -/
theorem systemText_occurs {system : String} {messages : List ChatMessage}
    (huser : .user ∈ messages.map ChatMessage.role) :
    system.Occurs (renderMistralFrom (some system) true messages) := by
  induction messages with
  | nil => cases huser
  | cons message messages ih =>
      rw [renderMistralFrom]
      cases message with
      | user parts =>
          have hpush : mistralPush (some system) true (.user parts) =
              "[INST] " ++ system ++ "\n\n" ++ (ChatMessage.user parts).text ++ " [/INST]" := rfl
          apply String.Occurs.append_right
          rw [hpush]
          apply String.Occurs.append_right
          apply String.Occurs.append_right
          exact String.occurs_between _ system _
      | system | assistant | toolResult =>
          rcases List.mem_cons.mp huser with hrole | hlater
          · cases hrole
          · exact (ih hlater).append_left _

/-- Messages of the system are passed over. -/
theorem renderMistralFrom_filter (firstUser : Bool) (messages : List ChatMessage) :
    renderMistralFrom systemText firstUser messages =
      renderMistralFrom systemText firstUser (messages.filter (!·.isSystem)) := by
  induction messages generalizing firstUser with
  | nil => rfl
  | cons message messages ih =>
      cases message with
      | system text =>
          have hfirst : (firstUser && !(ChatMessage.system text).isUser) = firstUser :=
            Bool.and_true firstUser
          rw [List.filter_cons_of_neg (by simp [ChatMessage.isSystem]), renderMistralFrom, hfirst,
            ih]
          exact String.empty_append
      | user | assistant | toolResult =>
          rw [List.filter_cons_of_pos rfl, renderMistralFrom, renderMistralFrom, ih]

end

/-- The only message of the system is the one whose text is shown. -/
theorem systemText_eq {messages : List ChatMessage} (tools : List ToolDefinition)
    (hone : (messages.map ChatMessage.role).count .system ≤ 1) {message : ChatMessage}
    (hmessage : message ∈ messages) (hsystem : message.isSystem = true) :
    systemText messages tools = some (message.text ++ toolSystemPrompt tools) := by
  induction messages with
  | nil => cases hmessage
  | cons first rest ih =>
      rw [List.map_cons, List.count_cons] at hone
      cases first with
      | system text =>
          have hnone : (rest.map ChatMessage.role).count .system = 0 := by
            simp only [ChatMessage.role, beq_self_eq_true, if_true] at hone
            omega
          rcases List.mem_cons.mp hmessage with rfl | hlater
          · rfl
          · have hrole := (role_eq_system_iff message).mpr hsystem
            exact absurd (hrole ▸ List.mem_map_of_mem hlater) (List.count_eq_zero.mp hnone)
      | user | assistant | toolResult =>
          rcases List.mem_cons.mp hmessage with rfl | hlater
          · cases hsystem
          · exact ih hone hlater

/-! ## What is kept -/

theorem lacksSystem_iff (messages : List ChatMessage) (tools : List ToolDefinition) :
    lacksSystem messages tools = true ↔
      tools ≠ [] ∧ .system ∉ messages.map ChatMessage.role := by
  rw [lacksSystem, Bool.and_eq_true, Bool.not_eq_true', Bool.not_eq_true',
    List.isEmpty_eq_false_iff, ← any_isSystem_iff, Bool.not_eq_true]

section

variable {format : TemplateFormat} {messages : List ChatMessage} {tools : List ToolDefinition}

/-- All templates but one hold every text; the tools need a message of the system. -/
theorem kept_of_pushMessage (hformat : format ≠ .mistral)
    (hplaces : Accommodates format (messages.map ChatMessage.role) tools.length) :
    Kept format messages tools := by
  constructor
  · intro message hmessage
    apply occurs_render tools hformat
    exact Or.inr ⟨message, hmessage, text_occurs_pushMessage tools format message⟩
  · rw [render_eq_pushMessage tools hformat, String.toList_append, String.toList_append,
      String.toList_join, List.flatMap_map]
    have hall : InOrder (messages.map fun message => message.text.toList)
        (messages.flatMap fun message => (pushMessage tools format message).toList) :=
      InOrder.flatMap fun message _ => text_occurs_pushMessage tools format message
    have hsub : (messages.filter (!·.isSystem)).Sublist messages := List.filter_sublist
    have hkept := hall.sublist (hsub.map fun message => message.text.toList)
    have hprompt := (hkept.append_left (promptFront tools format messages).toList).append
      (show InOrder [] (promptLast format).toList from trivial)
    rwa [List.append_nil] at hprompt
  · intro tool htool
    apply (description_occurs tools htool).trans
    apply occurs_render tools hformat
    by_cases hsystem : .system ∈ messages.map ChatMessage.role
    · obtain ⟨message, hmessage, hrole⟩ := List.mem_map.mp hsystem
      exact Or.inr ⟨message, hmessage,
        toolSystemPrompt_occurs_pushMessage tools format ((role_eq_system_iff message).mp hrole)⟩
    · have hpos := List.length_pos_of_mem htool
      have hlacks := (lacksSystem_iff messages tools).mpr ⟨List.ne_nil_of_mem htool, hsystem⟩
      have hown := (hplaces.tools hpos).resolve_left hsystem
      exact Or.inl (toolSystemPrompt_occurs_front tools hown hlacks)

/-- The Mistral template holds the text of one message of the system in front of a text of the
user. -/
theorem kept_of_mistral (huser : .user ∈ messages.map ChatMessage.role)
    (hplaces : Accommodates .mistral (messages.map ChatMessage.role) tools.length) :
    Kept .mistral messages tools := by
  have hone := hplaces.system rfl
  have hinOrder : InOrder ((messages.filter (!·.isSystem)).map fun message => message.text.toList)
      (render messages tools .mistral).toList := by
    have hfrom := inOrder_renderMistralFrom (systemText messages tools) true messages
    have hrender : render messages tools .mistral =
        "<s>" ++ renderMistralFrom (systemText messages tools) true messages := rfl
    rw [hrender, String.toList_append]
    exact hfrom.append_left _
  -- what the prompt holds for a message of the system
  have hsystem : ∀ message ∈ messages, message.isSystem = true →
      (message.text ++ toolSystemPrompt tools).Occurs (render messages tools .mistral) := by
    intro message hmessage hsystem
    have hrender : render messages tools .mistral =
        "<s>" ++ renderMistralFrom (systemText messages tools) true messages := rfl
    rw [hrender, systemText_eq tools hone hmessage hsystem]
    exact (systemText_occurs huser).append_left _
  constructor
  · intro message hmessage
    cases hkind : message.isSystem with
    | true =>
        apply String.Occurs.trans _ (hsystem message hmessage hkind)
        exact (String.occurs_refl _).append_right _
    | false =>
        apply hinOrder.infix_of_mem
        apply List.mem_map_of_mem (f := fun message : ChatMessage => message.text.toList)
        exact List.mem_filter.mpr ⟨hmessage, by rw [hkind]; rfl⟩
  · exact hinOrder
  · intro tool htool
    have hpos := List.length_pos_of_mem htool
    have hhas := (hplaces.tools hpos).resolve_right (by simp)
    obtain ⟨message, hmessage, hrole⟩ := List.mem_map.mp hhas
    have hkind := (role_eq_system_iff message).mp hrole
    apply (description_occurs tools htool).trans
    apply String.Occurs.trans _ (hsystem message hmessage hkind)
    exact (String.occurs_refl _).append_left _

/-- A conversation for which the template has places is kept. -/
theorem kept_of_accommodates (huser : .user ∈ messages.map ChatMessage.role)
    (hplaces : Accommodates format (messages.map ChatMessage.role) tools.length) :
    Kept format messages tools := by
  by_cases hformat : format = .mistral
  · subst hformat
    exact kept_of_mistral huser hplaces
  · exact kept_of_pushMessage hformat hplaces

end

/-! ## What is dropped -/

/-- A message with this role and text. -/
def messageOf (role : Role) (text : String) : ChatMessage :=
  match role with
  | .system => .system text
  | .user => .user [.text text]
  | .assistant => .assistant (some text) []
  | .tool => .toolResult "" text

@[simp]
theorem role_messageOf (role : Role) (text : String) : (messageOf role text).role = role := by
  cases role <;> rfl

/-- Messages with these roles and no texts. -/
def blank (roles : List Role) : List ChatMessage := roles.map fun role => messageOf role ""

@[simp]
theorem roles_blank (roles : List Role) : (blank roles).map ChatMessage.role = roles := by
  rw [blank, List.map_map]
  exact (List.map_congr_left fun role _ => role_messageOf role "").trans (List.map_id roles)

/-- In the Mistral template the text of a second message of the system changes nothing. -/
theorem render_mistral_second_system (tools : List ToolDefinition) {before : List ChatMessage}
    (hbefore : .system ∈ before.map ChatMessage.role) (text text' : String)
    (after : List ChatMessage) :
    render (before ++ .system text :: after) tools .mistral =
      render (before ++ .system text' :: after) tools .mistral := by
  have hfirst : ∃ first, systemText before tools = some first := by
    obtain ⟨message, hmessage, hrole⟩ := List.mem_map.mp hbefore
    apply Option.isSome_iff_exists.mp
    rw [systemText, List.findSome?_isSome_iff]
    cases message with
    | system => exact ⟨_, hmessage, rfl⟩
    | user | assistant | toolResult => cases hrole
  obtain ⟨first, hfirst⟩ := hfirst
  have hsystem (rest : List ChatMessage) : systemText (before ++ rest) tools = some first := by
    rw [systemText, List.findSome?_append]
    change (systemText before tools).or _ = _
    rw [hfirst]
    rfl
  change "<s>" ++ _ = "<s>" ++ _
  rw [hsystem, hsystem, renderMistralFrom_filter,
    renderMistralFrom_filter _ _ (before ++ .system text' :: after), List.filter_append,
    List.filter_append]
  rfl

/-- Without a message of the system the tools change nothing in four of the templates. -/
theorem render_tools {format : TemplateFormat} (hllama3 : format ≠ .llama3)
    (hchatML : format ≠ .chatML) {messages : List ChatMessage}
    (hsystem : .system ∉ messages.map ChatMessage.role) (tools tools' : List ToolDefinition) :
    render messages tools format = render messages tools' format := by
  have hnone : ∀ message ∈ messages, message.isSystem = false := by
    intro message hmessage
    apply Bool.eq_false_iff.mpr
    intro hkind
    exact hsystem (List.mem_map.mpr ⟨message, hmessage, (role_eq_system_iff message).mpr hkind⟩)
  by_cases hformat : format = .mistral
  · subst hformat
    have htext (tools : List ToolDefinition) : systemText messages tools = none := by
      rw [systemText, List.findSome?_eq_none_iff]
      intro message hmessage
      have hkind := hnone message hmessage
      cases message with
      | system => cases hkind
      | user | assistant | toolResult => rfl
    change "<s>" ++ _ = "<s>" ++ _
    rw [htext, htext]
  · have hfront : promptFront tools format messages = promptFront tools' format messages := by
      cases format with
      | llama3 => exact absurd rfl hllama3
      | chatML => exact absurd rfl hchatML
      | gemma | phi3 | mistral | generic => rfl
    rw [render_eq_pushMessage tools hformat, render_eq_pushMessage tools' hformat, hfront,
      List.map_congr_left fun message hmessage =>
        pushMessage_congr tools tools' format (hnone message hmessage)]

/-- All conversations with these roles and so many tools are kept. -/
def KeepsAll (format : TemplateFormat) (roles : List Role) (toolCount : ℕ) : Prop :=
  ∀ messages tools, messages.map ChatMessage.role = roles → tools.length = toolCount →
    Kept format messages tools

/-- **When nothing is dropped from the prompt.** For every template, a conversation with at least
one message of the user is kept, whatever its texts and tools say, if and only if the template has
a place for all of it: one message of the system at most in the Mistral template, and a message of
the system for the tools unless the template makes one up. -/
theorem keepsAll_iff (format : TemplateFormat) {roles : List Role} (huser : .user ∈ roles)
    (toolCount : ℕ) : KeepsAll format roles toolCount ↔ Accommodates format roles toolCount := by
  constructor
  · intro hkeeps
    constructor
    · -- a second message of the system can say what the prompt does not hold
      rintro rfl
      by_contra hcount
      have htwo := List.replicate_sublist_iff.mpr (Nat.lt_of_not_le hcount)
      obtain ⟨before, rest, rfl, hbefore, hsecond⟩ := List.cons_sublist_iff.mp htwo
      obtain ⟨between, after, rfl⟩ := List.append_of_mem (List.singleton_sublist.mp hsecond)
      have hfirst : Role.system ∈ (blank (before ++ between)).map ChatMessage.role := by
        rw [roles_blank]
        exact List.mem_append_left _ hbefore
      let tools : List ToolDefinition := List.replicate toolCount ⟨"", "", .null⟩
      obtain ⟨text, htext⟩ := String.exists_not_occurs
        (render (blank (before ++ between) ++ .system "" :: blank after) tools .mistral)
      rw [render_mistral_second_system tools hfirst "" text] at htext
      apply htext
      apply (hkeeps _ tools _ List.length_replicate).texts (.system text)
      · exact List.mem_append_right _ List.mem_cons_self
      · rw [List.map_append, List.map_cons, roles_blank, roles_blank, List.append_assoc]
        rfl
    · -- without a place a tool can say what the prompt does not hold
      intro hpos
      by_contra hplace
      obtain ⟨hsystem, hother⟩ := not_or.mp hplace
      obtain ⟨hllama3, hchatML⟩ := not_or.mp hother
      rw [← roles_blank roles] at hsystem
      obtain ⟨text, htext⟩ := String.exists_not_occurs (render (blank roles) [] format)
      let tools : List ToolDefinition := List.replicate toolCount ⟨"", text, .null⟩
      have hkept := hkeeps (blank roles) tools (roles_blank roles) List.length_replicate
      have hdescription := hkept.descriptions ⟨"", text, .null⟩
        (List.mem_replicate.mpr ⟨hpos.ne', rfl⟩)
      rw [render_tools hllama3 hchatML hsystem tools []] at hdescription
      exact htext hdescription
  · rintro hplaces messages tools rfl rfl
    exact kept_of_accommodates huser hplaces

/-- A conversation with one message of the system and a tool has places in the Mistral template. -/
theorem keepsAll_iff_mistral :
    KeepsAll .mistral [.system, .user] 1 ↔ Accommodates .mistral [.system, .user] 1 :=
  keepsAll_iff .mistral (by decide) 1

/-- A second message of the system that the Mistral template drops, and tools that four templates
drop when there is no message of the system. -/
theorem dropped_from_prompt :
    (¬ Kept .mistral [.system "Be brief.", .system "Answer in French.", .user [.text "Hello"]] []) ∧
      ∀ format ∈ [TemplateFormat.gemma, .phi3, .mistral, .generic],
        ¬ Kept format [.user [.text "What is the weather?"]]
          [⟨"weather", "Looks up the forecast.", .null⟩] := by
  have htext : ¬ (ChatMessage.system "Answer in French.").text.Occurs (render
      [.system "Be brief.", .system "Answer in French.", .user [.text "Hello"]] [] .mistral) := by
    decide +kernel
  have htools : ∀ format ∈ [TemplateFormat.gemma, .phi3, .mistral, .generic],
      ¬ ("Looks up the forecast." : String).Occurs (render [.user [.text "What is the weather?"]]
        [⟨"weather", "Looks up the forecast.", .null⟩] format) := by
    decide +kernel
  constructor
  · intro hkept
    exact htext (hkept.texts _ (List.mem_cons_of_mem _ List.mem_cons_self))
  · intro format hformat hkept
    have hdescription := hkept.descriptions _ List.mem_cons_self
    exact htools format hformat hdescription

end HiveBear.Inference
