/-
# A request that nothing interrupts

A request of the chat from where it is sent to where it has returned, when nothing else happens in
between. Listening may fail, the backend may refuse, and a stream may end or break off; and the
events of the stream may be delivered before its reply or behind it. What the user sees in the end
and what the request returns are two things, and they are not always the same.
-/

import HiveBear.Desktop.Resend

namespace HiveBear.Desktop

open LabelledRun

/-! ## A request that nothing interrupts -/

/-- How it goes with a request. -/
inductive Answer
  /-- Its tokens cannot be listened to. -/
  | tokensUnheard (message : String)
  /-- Its errors cannot be listened to. -/
  | errorsUnheard (message : String)
  | refused (message : String)
  /-- The backend streams texts, and may break off with an error. So many of the events are
  delivered before the reply. -/
  | streamed (host : Host) (texts : List String) (error : Option String) (inTime : ℕ)

namespace Chat

def listenToken (chat : Chat) (i : ℕ) : Chat :=
  let registered : Chat :=
    { chat.setPhase i (.tokenRegistered chat.currentRefs) with
      tokenListeners := chat.tokenListeners ++ [i] }
  { registered.setPhase i (.listenError registered.currentRefs) with
    unlistenRefs :=
      registered.unlistenRefs.modify chat.currentRefs ({ · with token := some i }) }

def listenError (chat : Chat) (i : ℕ) : Chat :=
  let registered : Chat :=
    { chat.setPhase i (.errorRegistered chat.currentRefs) with
      errorListeners := chat.errorListeners ++ [i] }
  { registered.setPhase i .asked with
    unlistenRefs :=
      registered.unlistenRefs.modify chat.currentRefs ({ · with error := some i }) }

/-- The backend streams texts, behind what it has streamed. -/
def emitAll (i : ℕ) (chat : Chat) (fullText : String) : List String → Chat
  | [] => chat
  | text :: texts =>
      let call := chat.calls i
      emitAll i
        (chat.setCall i
          { call with
            phase := .streaming (fullText ++ text)
            pending := call.pending ++ [.token text] })
        (fullText ++ text) texts

def endStream (chat : Chat) (i : ℕ) (host : Host) (fullText : String) : Option String → Chat
  | none => chat.setPhase i (.replying (streamResult host fullText none))
  | some message =>
      chat.setCall i
        { chat.calls i with
          phase := .replying (streamResult host fullText (some message))
          pending := (chat.calls i).pending ++ [.error message] }

/-- So many events are delivered, or all that there are. -/
def deliverAll (i : ℕ) (chat : Chat) : ℕ → Chat
  | 0 => chat
  | count + 1 =>
      match (chat.calls i).pending with
      | [] => chat
      | event :: rest =>
          deliverAll i ((chat.setCall i { chat.calls i with pending := rest }).receive i event)
            count

/-- The rest of a request, from where it has been sent. -/
def answered (chat : Chat) (i : ℕ) : Answer → Chat
  | .tokensUnheard message => chat.fail i message
  | .errorsUnheard message => (chat.listenToken i).fail i message
  | .refused message =>
      (((chat.listenToken i).listenError i).setPhase i (.replying (.error message))).reply i
        (.error message)
  | .streamed host texts error inTime =>
      let asked := (chat.listenToken i).listenError i
      let emitted := emitAll i (asked.setPhase i (.streaming "")) "" texts
      let ended := emitted.endStream i host (String.join texts) error
      let due := deliverAll i ended inTime
      deliverAll i (due.reply i (streamResult host (String.join texts) error)) (texts.length + 1)

/-! ## What is shown of it -/

/-- What a request has heard. -/
structure Heard where
  shown : String
  buffer : String
  failed : Bool

def Heard.receive (heard : Heard) : StreamEvent → Heard
  | .token text => ⟨heard.buffer ++ text, heard.buffer ++ text, heard.failed⟩
  | .error message => ⟨"Error: " ++ message, heard.buffer, true⟩

end Chat

namespace Answer

/-- The events of a stream. -/
def events (texts : List String) (error : Option String) : List StreamEvent :=
  texts.map .token ++ error.toList.map .error

/-- What is shown in the end. -/
def shown : Answer → String
  | .tokensUnheard message | .errorsUnheard message | .refused message => "Error: " ++ message
  | .streamed host texts error inTime =>
      match streamResult host (String.join texts) error with
      | .error message => "Error: " ++ message
      | .ok fullText =>
          let heard := ((events texts error).take inTime).foldl Chat.Heard.receive ⟨"", "", false⟩
          if !heard.failed && fullText.toList.all isJsSpace then Chat.noOutputText else heard.shown

/-- What is returned to the page. -/
def returned : Answer → Option String
  | .tokensUnheard _ | .errorsUnheard _ | .refused _ => none
  | .streamed host texts error _ => (streamResult host (String.join texts) error).toOption

end Answer

namespace Chat

variable {chat : Chat} {history : List Shown} {i : ℕ}

theorem text_singleton (piece : Piece) : Content.text [piece] = piece.text := by
  simp [Content.text]

/-- What is overwritten is the last message. -/
theorem shown_display {shown : Shown}
    (h : chat.messages.map DisplayMessage.shown = history ++ [shown]) (content : Content) :
    (chat.display content).messages.map DisplayMessage.shown =
      history ++ [⟨.assistant, content.text⟩] := by
  obtain ⟨early, last, hsplit, hearly, hlast⟩ := List.map_eq_append_iff.mp h
  obtain ⟨message, rfl, -⟩ := List.map_eq_singleton_iff.mp hlast
  rw [display, setLast, hsplit, List.getLast?_concat]
  show (_ ++ [_]).map _ = _
  rw [List.dropLast_concat, List.map_append, hearly]
  rfl

/-- Nothing of any request is left. -/
structure Idle (chat : Chat) : Prop where
  tokens : chat.tokenListeners = []
  errors : chat.errorListeners = []
  current : chat.unlistenRefs.getLast? = some ⟨none, none⟩
  streaming : chat.streaming = false

/-- Every listener is noted, so that it can be removed. -/
structure Noted (chat : Chat) : Prop where
  tokens : ∀ k ∈ chat.tokenListeners, some k = chat.current.token
  errors : ∀ k ∈ chat.errorListeners, some k = chat.current.error

/-- A request that listens, and has heard this. -/
structure Listens (i : ℕ) (history : List Shown) (heard : Heard) (chat : Chat) : Prop where
  shown : chat.messages.map DisplayMessage.shown = history ++ [⟨.assistant, heard.shown⟩]
  buffer : chat.streamBuffer.text = heard.buffer
  failed : (chat.calls i).errorShown = heard.failed
  tokens : chat.tokenListeners = [i]
  errors : chat.errorListeners = [i]
  noted : chat.Noted
  going : chat.stopRef = false

/-- The request has returned, and this is shown of it. -/
structure Returned (i : ℕ) (history : List Shown) (shown : String) (fullReply : Option String)
    (chat : Chat) : Prop where
  shown : chat.messages.map DisplayMessage.shown = history ++ [⟨.assistant, shown⟩]
  phase : (chat.calls i).phase = .returned fullReply
  idle : chat.Idle

theorem finish_returned {shown : String}
    (hshown : chat.messages.map DisplayMessage.shown = history ++ [⟨.assistant, shown⟩])
    (hnoted : chat.Noted) (hgoing : chat.stopRef = false) (fullReply : Option String) :
    Returned i history shown fullReply (chat.finish i fullReply) where
  shown := hshown
  phase := by
    have hstop : ¬ (chat.stopRef = true ∧ chat.streamBuffer.text ≠ "") := by simp [hgoing]
    exact (phase_setPhase _ i _).trans (congrArg CallPhase.returned (if_neg hstop))
  idle :=
    { tokens := List.filter_eq_nil_iff.mpr fun k hk => by simp [hnoted.tokens k hk]
      errors := List.filter_eq_nil_iff.mpr fun k hk => by simp [hnoted.errors k hk]
      current := List.getLast?_concat
      streaming := rfl }

theorem fail_returned {shown : Shown}
    (hshown : chat.messages.map DisplayMessage.shown = history ++ [shown])
    (hnoted : chat.Noted) (hgoing : chat.stopRef = false) (message : String) :
    Returned i history ("Error: " ++ message) none (chat.fail i message) := by
  rw [fail, if_neg (by rw [hgoing]; exact Bool.false_ne_true)]
  have hdisplayed := shown_display hshown [⟨i, "Error: " ++ message⟩]
  rw [text_singleton] at hdisplayed
  exact finish_returned hdisplayed ⟨hnoted.tokens, hnoted.errors⟩ hgoing none

variable {heard : Heard}

/-- Only what is shown of a call matters. -/
theorem Listens.setCall (h : Listens i history heard chat) {call : Call}
    (hcall : call.errorShown = (chat.calls i).errorShown) :
    Listens i history heard (chat.setCall i call) where
  shown := h.shown
  buffer := h.buffer
  failed := by rw [calls_setCall_self, hcall]; exact h.failed
  tokens := h.tokens
  errors := h.errors
  noted := ⟨h.noted.tokens, h.noted.errors⟩
  going := h.going

theorem Listens.receive (h : Listens i history heard chat) (event : StreamEvent) :
    Listens i history (heard.receive event) (chat.receive i event) := by
  cases event with
  | token text =>
      have honce : chat.receive i (.token text) = chat.onToken i text := by
        rw [Chat.receive, h.tokens, List.foldl_cons, List.foldl_nil]
      have htext : Content.text (chat.streamBuffer ++ [⟨i, text⟩]) = heard.buffer ++ text := by
        rw [← h.buffer]
        simp [Content.text, String.join_append]
      rw [honce, onToken, if_neg (by rw [h.going]; exact Bool.false_ne_true)]
      have hshown := shown_display h.shown (chat.streamBuffer ++ [⟨i, text⟩])
      rw [htext] at hshown
      exact ⟨hshown, htext, h.failed, h.tokens, h.errors, ⟨h.noted.tokens, h.noted.errors⟩,
        h.going⟩
  | error message =>
      have honce : chat.receive i (.error message) = chat.onError i message i := by
        rw [Chat.receive, h.errors, List.foldl_cons, List.foldl_nil]
      rw [honce, onError]
      have hshown := shown_display h.shown [⟨i, "Error: " ++ message⟩]
      rw [text_singleton] at hshown
      exact ⟨hshown, h.buffer, by rw [calls_setCall_self]; rfl, h.tokens, h.errors,
        ⟨h.noted.tokens, h.noted.errors⟩, h.going⟩

/-- The calls go on as they are, but for what has been shown of them. -/
theorem call_receive (chat : Chat) (i : ℕ) (event : StreamEvent) (k : ℕ) :
    ((chat.receive i event).calls k).phase = (chat.calls k).phase ∧
      ((chat.receive i event).calls k).pending = (chat.calls k).pending := by
  let Same (next : Chat) : Prop :=
    (next.calls k).phase = (chat.calls k).phase ∧ (next.calls k).pending = (chat.calls k).pending
  cases event with
  | token text =>
      refine List.foldlRecOn chat.tokenListeners _ (motive := Same) ⟨rfl, rfl⟩ ?_
      intro next hnext _ _
      rw [onToken]
      split
      · exact hnext
      · exact hnext
  | error message =>
      refine List.foldlRecOn chat.errorListeners _ (motive := Same) ⟨rfl, rfl⟩ ?_
      intro next hnext owner _
      rcases eq_or_ne k owner with rfl | hother
      · simp only [Same, onError, calls_setCall_self]
        exact hnext
      · simp only [Same, onError, calls_setCall_of_ne _ hother]
        exact hnext

theorem call_deliverAll (chat : Chat) (i count : ℕ) :
    ((deliverAll i chat count).calls i).phase = (chat.calls i).phase ∧
      ((deliverAll i chat count).calls i).pending = (chat.calls i).pending.drop count := by
  induction count generalizing chat with
  | zero => exact ⟨rfl, rfl⟩
  | succ count ih =>
      rw [deliverAll]
      cases hpending : (chat.calls i).pending with
      | nil => exact ⟨rfl, hpending⟩
      | cons event rest =>
          obtain ⟨hphase, hdropped⟩ :=
            ih ((chat.setCall i { chat.calls i with pending := rest }).receive i event)
          obtain ⟨hreceivedPhase, hreceived⟩ :=
            call_receive (chat.setCall i { chat.calls i with pending := rest }) i event i
          rw [calls_setCall_self] at hreceivedPhase hreceived
          rw [hphase, hreceivedPhase, hdropped, hreceived]
          exact ⟨rfl, rfl⟩

/-- So it is with the events that are delivered. -/
theorem Listens.deliverAll (h : Listens i history heard chat) (count : ℕ) :
    Listens i history (((chat.calls i).pending.take count).foldl Heard.receive heard)
      (deliverAll i chat count) := by
  induction count generalizing chat heard with
  | zero => exact h
  | succ count ih =>
      rw [Chat.deliverAll]
      cases hpending : (chat.calls i).pending with
      | nil => exact h
      | cons event rest =>
          have htaken : Listens i history heard
              (chat.setCall i { chat.calls i with pending := rest }) := h.setCall rfl
          have hrest := ih (htaken.receive event)
          rw [(call_receive _ i event i).2, calls_setCall_self] at hrest
          exact hrest

/-- Events that nobody listens to change nothing. -/
theorem Idle.receive (h : chat.Idle) (i : ℕ) (event : StreamEvent) :
    chat.receive i event = chat := by
  cases event with
  | token text => rw [Chat.receive, h.tokens, List.foldl_nil]
  | error message => rw [Chat.receive, h.errors, List.foldl_nil]

theorem Returned.deliverAll {shown : String} {fullReply : Option String}
    (h : Returned i history shown fullReply chat) (count : ℕ) :
    Returned i history shown fullReply (deliverAll i chat count) := by
  induction count generalizing chat with
  | zero => exact h
  | succ count ih =>
      rw [Chat.deliverAll]
      cases hpending : (chat.calls i).pending with
      | nil => exact h
      | cons event rest =>
          have htaken : Returned i history shown fullReply
              (chat.setCall i { chat.calls i with pending := rest }) :=
            ⟨h.shown, by rw [calls_setCall_self]; exact h.phase,
              h.idle.tokens, h.idle.errors, h.idle.current, h.idle.streaming⟩
          have hsame := htaken.idle.receive i event
          rw [← hsame] at htaken
          exact ih htaken

/-- The reply, behind what has been heard. -/
theorem Listens.reply (h : Listens i history heard chat) (result : Except String String) :
    Returned i history
      (match result with
        | .error message => "Error: " ++ message
        | .ok fullText =>
            if !heard.failed && fullText.toList.all isJsSpace then noOutputText else heard.shown)
      result.toOption (chat.reply i result) := by
  cases result with
  | error message => exact fail_returned h.shown h.noted h.going message
  | ok fullText =>
      have hsilent : (!chat.stopRef && !(chat.calls i).errorShown &&
          fullText.toList.all isJsSpace) = (!heard.failed && fullText.toList.all isJsSpace) := by
        rw [h.going, h.failed, Bool.not_false, Bool.true_and]
      rw [Chat.reply]
      dsimp only
      rw [hsilent]
      split
      · have hdisplayed := shown_display h.shown [⟨i, noOutputText⟩]
        rw [text_singleton] at hdisplayed
        exact finish_returned hdisplayed ⟨h.noted.tokens, h.noted.errors⟩ h.going _
      · exact finish_returned h.shown h.noted h.going _

/-- A request that has shown nothing yet. -/
structure Starts (i : ℕ) (history : List Shown) (refs : UnlistenRefs) (chat : Chat) : Prop where
  shown : chat.messages.map DisplayMessage.shown = history ++ [⟨.assistant, ""⟩]
  buffer : chat.streamBuffer = []
  failed : (chat.calls i).errorShown = false
  pending : (chat.calls i).pending = []
  tokens : chat.tokenListeners = refs.token.toList
  errors : chat.errorListeners = refs.error.toList
  current : chat.unlistenRefs.getLast? = some refs
  going : chat.stopRef = false

variable {refs : UnlistenRefs}

theorem Starts.noted (h : Starts i history refs chat) : chat.Noted := by
  have hcurrent : chat.current = refs := by rw [Chat.current, h.current, Option.getD_some]
  refine ⟨fun k hk => ?_, fun k hk => ?_⟩
  · rw [h.tokens, Option.mem_toList] at hk
    rw [hcurrent, hk]
  · rw [h.errors, Option.mem_toList] at hk
    rw [hcurrent, hk]

theorem getLast?_modify_current (chat : Chat) (change : UnlistenRefs → UnlistenRefs) :
    (chat.unlistenRefs.modify chat.currentRefs change).getLast? =
      chat.unlistenRefs.getLast?.map change := by
  rw [List.getLast?_eq_getElem?, List.getLast?_eq_getElem?, List.length_modify, currentRefs,
    List.getElem?_modify_eq]
  rfl

theorem Starts.listenToken (h : Starts i history ⟨none, none⟩ chat) :
    Starts i history ⟨some i, none⟩ (chat.listenToken i) where
  shown := h.shown
  buffer := h.buffer
  failed := by simpa [Chat.listenToken, setPhase] using h.failed
  pending := by simpa [Chat.listenToken, setPhase] using h.pending
  tokens := by
    show chat.tokenListeners ++ [i] = _
    rw [h.tokens]
    rfl
  errors := h.errors
  current := (getLast?_modify_current chat _).trans (by rw [h.current]; rfl)
  going := h.going

theorem Starts.listenError (h : Starts i history ⟨some i, none⟩ chat) :
    Starts i history ⟨some i, some i⟩ (chat.listenError i) where
  shown := h.shown
  buffer := h.buffer
  failed := by simpa [Chat.listenError, setPhase] using h.failed
  pending := by simpa [Chat.listenError, setPhase] using h.pending
  tokens := h.tokens
  errors := by
    show chat.errorListeners ++ [i] = _
    rw [h.errors]
    rfl
  current := (getLast?_modify_current chat _).trans (by rw [h.current]; rfl)
  going := h.going

theorem Starts.listens (h : Starts i history ⟨some i, some i⟩ chat) :
    Listens i history ⟨"", "", false⟩ chat where
  shown := h.shown
  buffer := by rw [h.buffer]; rfl
  failed := h.failed
  tokens := h.tokens
  errors := h.errors
  noted := h.noted
  going := h.going

theorem Listens.emitAll (h : Listens i history heard chat) (fullText : String)
    (texts : List String) :
    Listens i history heard (emitAll i chat fullText texts) ∧
      ((emitAll i chat fullText texts).calls i).pending =
        (chat.calls i).pending ++ texts.map .token := by
  induction texts generalizing chat fullText with
  | nil => exact ⟨h, (List.append_nil _).symm⟩
  | cons text texts ih =>
      have hemitted : Listens i history heard
          (chat.setCall i
            { chat.calls i with
              phase := .streaming (fullText ++ text)
              pending := (chat.calls i).pending ++ [.token text] }) := h.setCall rfl
      obtain ⟨hlistens, hpending⟩ := ih hemitted (fullText ++ text)
      rw [Chat.emitAll]
      refine ⟨hlistens, hpending.trans ?_⟩
      rw [calls_setCall_self, List.append_assoc]
      rfl

theorem Listens.endStream (h : Listens i history heard chat) (host : Host) (fullText : String)
    (error : Option String) :
    Listens i history heard (chat.endStream i host fullText error) ∧
      ((chat.endStream i host fullText error).calls i).pending =
        (chat.calls i).pending ++ error.toList.map .error := by
  cases error with
  | none =>
      refine ⟨h.setCall rfl, ?_⟩
      rw [Chat.endStream, setPhase, calls_setCall_self]
      exact (List.append_nil _).symm
  | some message =>
      refine ⟨h.setCall rfl, ?_⟩
      rw [Chat.endStream, calls_setCall_self]
      rfl

/-- **What a request comes to**: what is shown of it, and what is returned. -/
theorem Starts.answered (h : Starts i history ⟨none, none⟩ chat) (answer : Answer) :
    Returned i history answer.shown answer.returned (chat.answered i answer) := by
  have hasked := h.listenToken.listenError.listens
  have hphase (phase : CallPhase) : Listens i history ⟨"", "", false⟩
      (((chat.listenToken i).listenError i).setPhase i phase) := hasked.setCall rfl
  cases answer with
  | tokensUnheard message => exact fail_returned h.shown h.noted h.going message
  | errorsUnheard message =>
      exact fail_returned h.listenToken.shown h.listenToken.noted h.listenToken.going message
  | refused message => exact (hphase _).reply (.error message)
  | streamed host texts error inTime =>
      obtain ⟨hemitted, htokens⟩ := (hphase (.streaming "")).emitAll "" texts
      obtain ⟨hended, hevents⟩ := hemitted.endStream host (String.join texts) error
      have hdue := hended.deliverAll inTime
      have hpending : (((chat.listenToken i).listenError i).calls i).pending = [] :=
        h.listenToken.listenError.pending
      rw [hevents, htokens, setPhase, calls_setCall_self, hpending, List.nil_append] at hdue
      exact (hdue.reply _).deliverAll _

/-! ## That it can go so -/

theorem run_listenToken (h : (chat.calls i).phase = .listenToken chat.currentRefs) :
    Run ChatStep chat [.registered i, .listening i] (chat.listenToken i) ∧
      ((chat.listenToken i).calls i).phase = .listenError (chat.listenToken i).currentRefs := by
  have registered : Run ChatStep chat _ _ := Run.single (.tokenRegistered h)
  have listening := registered.snoc (.tokenListening (phase_setPhase _ _ _))
  have hrefs : (chat.listenToken i).currentRefs = chat.currentRefs :=
    congrArg (· - 1) (List.length_modify _ _ _)
  rw [hrefs]
  exact ⟨listening, phase_setPhase _ _ _⟩

theorem run_listenError (h : (chat.calls i).phase = .listenError chat.currentRefs) :
    Run ChatStep chat [.registered i, .listening i] (chat.listenError i) ∧
      ((chat.listenError i).calls i).phase = .asked := by
  have registered : Run ChatStep chat _ _ := Run.single (.errorRegistered h)
  have listening := registered.snoc (.errorListening (phase_setPhase _ _ _))
  exact ⟨listening, phase_setPhase _ _ _⟩

theorem run_emitAll {fullText : String} (h : (chat.calls i).phase = .streaming fullText)
    (texts : List String) :
    ∃ events, Run ChatStep chat events (emitAll i chat fullText texts) ∧
      ((emitAll i chat fullText texts).calls i).phase =
        .streaming (fullText ++ String.join texts) := by
  induction texts generalizing chat fullText with
  | nil => exact ⟨[], Run.nil _, by rw [String.join_nil, String.append_empty]; exact h⟩
  | cons text texts ih =>
      have emitted : Run ChatStep chat _ _ := Run.single (.emit text h)
      have hphase := congrArg Call.phase (calls_setCall_self chat i
        { chat.calls i with
          phase := .streaming (fullText ++ text)
          pending := (chat.calls i).pending ++ [.token text] })
      obtain ⟨events, run, hlast⟩ := ih hphase
      refine ⟨_, emitted.append run, hlast.trans ?_⟩
      rw [String.join_cons, String.append_assoc]

theorem run_endStream {fullText : String} (h : (chat.calls i).phase = .streaming fullText)
    (host : Host) (error : Option String) :
    ∃ events, Run ChatStep chat events (chat.endStream i host fullText error) ∧
      ((chat.endStream i host fullText error).calls i).phase =
        .replying (streamResult host fullText error) := by
  cases error with
  | none => exact ⟨_, Run.single (.streamEnds host h), phase_setPhase _ _ _⟩
  | some message =>
      refine ⟨_, Run.single (.streamFails host message h), ?_⟩
      rw [endStream, calls_setCall_self]

theorem run_deliverAll (chat : Chat) (i count : ℕ) :
    ∃ events, Run ChatStep chat events (deliverAll i chat count) := by
  induction count generalizing chat with
  | zero => exact ⟨[], Run.nil _⟩
  | succ count ih =>
      rw [deliverAll]
      cases hpending : (chat.calls i).pending with
      | nil => exact ⟨[], Run.nil _⟩
      | cons event rest =>
          have delivered : Run ChatStep chat _ _ := Run.single (.deliver hpending)
          obtain ⟨events, run⟩ := ih ((chat.setCall i { chat.calls i with pending := rest }).receive
            i event)
          exact ⟨_, delivered.append run⟩

/-- What a request comes to, it comes to in steps. -/
theorem run_answered (h : (chat.calls i).phase = .listenToken chat.currentRefs)
    (answer : Answer) : ∃ events, Run ChatStep chat events (chat.answered i answer) := by
  obtain ⟨heard, hheard⟩ := run_listenToken h
  obtain ⟨asked, hasked⟩ := run_listenError hheard
  cases answer with
  | tokensUnheard message => exact ⟨_, Run.single (.listenTokenFails message h)⟩
  | errorsUnheard message => exact ⟨_, heard.snoc (.listenErrorFails message hheard)⟩
  | refused message =>
      have refused := (heard.append asked).snoc (.refuse message hasked)
      exact ⟨_, refused.snoc (.reply (phase_setPhase _ _ _))⟩
  | streamed host texts error inTime =>
      have started := (heard.append asked).snoc (.start hasked)
      obtain ⟨_, emitted, hemitted⟩ := run_emitAll (phase_setPhase _ i (.streaming "")) texts
      rw [String.empty_append] at hemitted
      obtain ⟨_, ended, hended⟩ := run_endStream hemitted host error
      obtain ⟨_, due⟩ := run_deliverAll _ i inTime
      have hdue := (call_deliverAll _ i inTime).1.trans hended
      obtain ⟨_, late⟩ := run_deliverAll _ i (texts.length + 1)
      have replied := (((started.append emitted).append ended).append due).snoc (.reply hdue)
      exact ⟨_, replied.append late⟩

end Chat

/-! ## What is returned is what is shown -/

/-- What is shown in the end is what is returned: the stream has a text that is not blank, and all
of it is delivered in time, with nothing behind it. An error that is delivered in time is shown in
place of the text. -/
def Answer.Faithful : Answer → Prop
  | .tokensUnheard _ | .errorsUnheard _ | .refused _ => False
  | .streamed _ texts error inTime =>
      let fullText := String.join texts
      fullText.toList.all Texts.isRustSpace = false ∧
        match (if texts.length < inTime then error else none) with
        | some message => fullText = "Error: " ++ message
        | none => fullText.toList.all isJsSpace = false ∧ String.join (texts.drop inTime) = ""

theorem heard_texts (text : String) (failed : Bool) (texts : List String) :
    (texts.map StreamEvent.token).foldl Chat.Heard.receive ⟨text, text, failed⟩ =
      ⟨text ++ String.join texts, text ++ String.join texts, failed⟩ := by
  induction texts generalizing text with
  | nil => rw [String.join_nil, String.append_empty]; rfl
  | cons next texts ih =>
      rw [List.map_cons, List.foldl_cons, Chat.Heard.receive, ih, String.join_cons,
        String.append_assoc]

/-- An error that is heard is shown in place of the texts, which are heard before it. -/
theorem heard_events (texts : List String) (error : Option String) (inTime : ℕ) :
    ((Answer.events texts error).take inTime).foldl Chat.Heard.receive ⟨"", "", false⟩ =
      match (if texts.length < inTime then error else none) with
      | some message => ⟨"Error: " ++ message, String.join texts, true⟩
      | none => ⟨String.join (texts.take inTime), String.join (texts.take inTime), false⟩ := by
  rw [Answer.events]
  by_cases hlate : texts.length < inTime
  · obtain ⟨count, rfl⟩ := Nat.exists_eq_add_of_lt hlate
    have htexts : texts.take (texts.length + count + 1) = texts :=
      List.take_of_length_le (by omega)
    rw [if_pos hlate, List.take_of_length_le, List.foldl_append, heard_texts, String.empty_append]
    · cases error with
      | none => rw [htexts]; rfl
      | some message => rfl
    · rw [List.length_append, List.length_map, List.length_map]
      have hone : error.toList.length ≤ 1 := Option.length_toList_le
      omega
  · rw [if_neg hlate, List.take_append_of_le_length, ← List.map_take, heard_texts,
      String.empty_append]
    rw [List.length_map]
    exact Nat.not_lt.mp hlate

theorem noOutputText_not_blank : Chat.noOutputText.toList.all isJsSpace = false := by
  decide +kernel

/-- A text is shown whole if it is not blank, and nothing of it is late. -/
theorem join_eq_shown_iff {texts : List String} {inTime : ℕ} :
    String.join texts =
        (if (!false && (String.join texts).toList.all isJsSpace) = true then Chat.noOutputText
          else String.join (texts.take inTime)) ↔
      (String.join texts).toList.all isJsSpace = false ∧ String.join (texts.drop inTime) = "" := by
  cases hblank : (String.join texts).toList.all isJsSpace with
  | true =>
      rw [Bool.not_false, Bool.true_and, if_pos rfl]
      refine ⟨fun h => ?_, fun h => (by cases h.1)⟩
      rw [h, noOutputText_not_blank] at hblank
      cases hblank
  | false =>
      have hsplit : String.join texts =
          String.join (texts.take inTime) ++ String.join (texts.drop inTime) := by
        rw [← String.join_append, List.take_append_drop]
      rw [Bool.and_false, if_neg Bool.false_ne_true, eq_self, true_and]
      exact (Eq.congr_left hsplit).trans String.append_eq_left_iff

/-- What is returned is what is shown just if the answer is faithful. -/
theorem Answer.returned_eq_shown_iff (answer : Answer) :
    answer.returned = some answer.shown ↔ answer.Faithful := by
  cases answer with
  | tokensUnheard message | errorsUnheard message | refused message =>
      exact ⟨fun h => (by cases h), False.elim⟩
  | streamed host texts error inTime =>
      rw [Answer.returned, Answer.shown, Answer.Faithful, heard_events]
      dsimp only
      cases hblank : (String.join texts).toList.all Texts.isRustSpace with
      | true =>
          have herror : (streamResult host (String.join texts) error).toOption = none := by
            rw [streamResult, if_pos hblank]
            rfl
          rw [herror]
          exact ⟨fun h => (by cases h), fun h => (by cases h.1)⟩
      | false =>
          have hok : streamResult host (String.join texts) error = .ok (String.join texts) :=
            if_neg (by rw [hblank]; exact Bool.false_ne_true)
          rw [hok, eq_self, true_and]
          show some _ = some _ ↔ _
          rw [Option.some_inj]
          cases (if texts.length < inTime then error else none) with
          | some message => exact Iff.rfl
          | none => exact join_eq_shown_iff

/-! ## What a request comes to -/

theorem Chat.Idle.starts {chat : Chat} (h : chat.Idle) (handleId : ℕ) (text : String) :
    Chat.Starts chat.requests (chat.messages.map DisplayMessage.shown ++ [⟨.user, text⟩])
      ⟨none, none⟩ (chat.send handleId text) where
  shown := by simp [Chat.send, DisplayMessage.shown, Content.text]
  buffer := rfl
  failed := by simp [Chat.send]
  pending := by simp [Chat.send]
  tokens := h.tokens
  errors := h.errors
  current := h.current
  going := rfl

theorem Chat.phase_send (chat : Chat) (handleId : ℕ) (text : String) :
    ((chat.send handleId text).calls chat.requests).phase =
      .listenToken (chat.send handleId text).currentRefs := by
  simp [Chat.send, Chat.currentRefs]

end HiveBear.Desktop
