/-
# Each answer in its own message

A chat shows a token in its last message, whichever stream it is from, and a request that
ends removes the listeners that are noted then and turns `streaming` off. So what is shown is
right as long as a request is only sent when nothing is left of any earlier one: its call has
returned, and the events of its stream have been delivered. `streaming` alone does not say
so: stopping a request turns it off while the stream goes on, and an event may arrive behind
the reply.

A request that is sent too early can always go wrong.
-/

import HiveBear.Desktop.Chat

namespace HiveBear.Desktop

open LabelledRun

/-! ## What is claimed -/

/-- A message of the assistant is built only from what came of its own request. -/
def DisplayMessage.Own (message : DisplayMessage) : Prop :=
  message.role = .assistant → ∀ piece ∈ message.content, piece.request = message.request

/-- The latest request that has not been stopped. -/
def Chat.LatestUnstopped (chat : Chat) (i : ℕ) : Prop :=
  i < chat.requests ∧ i + 1 ∉ chat.stops ∧ ∀ k, i < k → k < chat.requests → k + 1 ∈ chat.stops

/-- With these events a request completes. -/
def ChatEvent.completes (i : ℕ) : ChatEvent → Prop
  | .reply k | .listenFails k _ => k = i
  | _ => False

/-- **Each message shows its own answer.** Every message is built from what came of its own
request, the completion of a request removes no listener of a newer one, and `streaming` is
true exactly while the latest request that has not been stopped is running. -/
structure Chat.Lawful (chat : Chat) : Prop where
  own : ∀ message ∈ chat.messages, message.Own
  listeners : ∀ event next i, ChatStep chat event next → event.completes i → ∀ k, i < k →
    (k ∈ chat.tokenListeners → k ∈ next.tokenListeners) ∧
      (k ∈ chat.errorListeners → k ∈ next.errorListeners)
  streaming : chat.streaming = true ↔
    ∃ i, chat.LatestUnstopped i ∧ (chat.calls i).phase.isRunning = true

/-! ## The condition -/

/-- Nothing of a request is left: its call has returned, and its events are delivered. -/
def Call.Over (call : Call) : Prop := call.phase.isRunning = false ∧ call.pending = []

/-- A request is only sent when nothing is left of any earlier one. -/
def Alone (chat : Chat) (event : ChatEvent) : Prop :=
  match event with
  | .send closure _ => closure.accepts = true → ∀ i < chat.requests, (chat.calls i).Over
  | _ => True

/-! ## The invariant -/

namespace Chat

/-- Only the latest request may have anything left, and what is shown last is its message. -/
structure Ordered (chat : Chat) : Prop where
  others : ∀ i, i + 1 ≠ chat.requests → (chat.calls i).Over
  buffer : ∀ piece ∈ chat.streamBuffer, piece.request + 1 = chat.requests
  own : ∀ message ∈ chat.messages, message.Own
  last : ∀ message ∈ chat.messages.getLast?, message.request + 1 = chat.requests
  streaming : chat.streaming = true ↔
    chat.requests ∉ chat.stops ∧
      ∃ i, i + 1 = chat.requests ∧ (chat.calls i).phase.isRunning = true
  stops : ∀ count ∈ chat.stops, count ≤ chat.requests
  tokenListeners : ∀ i ∈ chat.tokenListeners, i < chat.requests
  errorListeners : ∀ i ∈ chat.errorListeners, i < chat.requests

variable {chat : Chat}

theorem ordered_newChat (handleId : Option ℕ) : (newChat handleId).Ordered where
  others _ _ := ⟨rfl, rfl⟩
  buffer := nofun
  own := nofun
  last := nofun
  streaming := ⟨nofun, fun ⟨_, _, hcount, _⟩ => absurd hcount (Nat.succ_ne_zero _)⟩
  stops := nofun
  tokenListeners := nofun
  errorListeners := nofun

/-- What is left belongs to the latest request. -/
theorem Ordered.latest_of_running (h : chat.Ordered) {i : ℕ}
    (hrunning : (chat.calls i).phase.isRunning = true) : i + 1 = chat.requests := by
  by_contra hother
  rw [(h.others i hother).1] at hrunning
  cases hrunning

theorem Ordered.latest_of_pending (h : chat.Ordered) {i : ℕ}
    (hpending : (chat.calls i).pending ≠ []) : i + 1 = chat.requests := by
  by_contra hother
  exact hpending (h.others i hother).2

/-- What the latest request shows is shown in its own message. -/
theorem Ordered.display (h : chat.Ordered) {content : Content}
    (hcontent : ∀ piece ∈ content, piece.request + 1 = chat.requests) :
    (chat.display content).Ordered := by
  have hlast : ∀ message ∈ (setLast chat.messages content).getLast?,
      message.request + 1 = chat.requests := by
    rw [setLast]
    split
    · rename_i last hlast
      rw [List.getLast?_concat]
      rintro message ⟨⟩
      exact h.last last hlast
    · nofun
  refine { h with own := ?_, last := hlast }
  intro message hmessage
  change message ∈ setLast chat.messages content at hmessage
  rw [setLast] at hmessage
  split at hmessage
  · rename_i last hfound
    rcases List.mem_append.mp hmessage with hbefore | hnew
    · exact h.own message (List.dropLast_subset _ hbefore)
    · rw [List.mem_singleton.mp hnew]
      intro _ piece hpiece
      exact Nat.succ.inj ((hcontent piece hpiece).trans (h.last last hfound).symm)
  · cases hmessage

/-- Removing listeners changes nothing else. -/
theorem Ordered.unlisten (h : chat.Ordered) : chat.unlisten.Ordered :=
  { h with
    tokenListeners := fun i hi => h.tokenListeners i (List.mem_filter.mp hi).1
    errorListeners := fun i hi => h.errorListeners i (List.mem_filter.mp hi).1 }

/-- A call may change as long as it does not stop running. -/
theorem Ordered.setCall (h : chat.Ordered) {i : ℕ} {call : Call}
    (hrunning : call.phase.isRunning = (chat.calls i).phase.isRunning)
    (hlatest : call.Over ∨ i + 1 = chat.requests) : (chat.setCall i call).Ordered := by
  have hphase (k : ℕ) : ((chat.setCall i call).calls k).phase.isRunning =
      (chat.calls k).phase.isRunning := by
    by_cases hk : k = i
    · rw [hk, calls_setCall_self, hrunning]
    · rw [calls_setCall_of_ne chat hk]
  refine { h with others := ?_, streaming := ?_ }
  · intro k hother
    by_cases hk : k = i
    · rw [hk] at hother ⊢
      rw [calls_setCall_self]
      exact hlatest.resolve_right hother
    · rw [calls_setCall_of_ne chat hk]
      exact h.others k hother
  · simp only [hphase]
    exact h.streaming

theorem Ordered.setPhase (h : chat.Ordered) {i : ℕ} {phase : CallPhase}
    (hbefore : (chat.calls i).phase.isRunning = true) (hafter : phase.isRunning = true) :
    (chat.setPhase i phase).Ordered :=
  h.setCall (hafter.trans hbefore.symm) (Or.inr (h.latest_of_running hbefore))

/-- A token of the latest request goes to its own message. -/
theorem Ordered.onToken (h : chat.Ordered) {i : ℕ} (hi : i + 1 = chat.requests) (text : String) :
    (chat.onToken i text).Ordered := by
  rw [Chat.onToken]
  split
  · exact h
  · have hcontent :
        ∀ piece ∈ chat.streamBuffer ++ [⟨i, text⟩], piece.request + 1 = chat.requests := by
      intro piece hpiece
      rcases List.mem_append.mp hpiece with hbefore | hnew
      · exact h.buffer piece hbefore
      · rwa [List.mem_singleton.mp hnew]
    exact { h.display hcontent with buffer := hcontent }

theorem Ordered.onError (h : chat.Ordered) {i : ℕ} (hi : i + 1 = chat.requests)
    (message : String) (owner : ℕ) : (chat.onError i message owner).Ordered := by
  have hshown : (chat.display [⟨i, "Error: " ++ message⟩]).Ordered := by
    refine h.display fun piece hpiece => ?_
    rwa [List.mem_singleton.mp hpiece]
  refine hshown.setCall rfl ?_
  by_cases howner : owner + 1 = chat.requests
  · exact Or.inr howner
  · exact Or.inl (h.others owner howner)

/-- However many listeners there are, an event of the latest request is shown in its own
message. -/
theorem Ordered.receive (h : chat.Ordered) {i : ℕ} (hi : i + 1 = chat.requests)
    (event : StreamEvent) : (chat.receive i event).Ordered := by
  have hfold {listeners : List ℕ} {handler : Chat → ℕ → Chat}
      (hhandler : ∀ (chat : Chat) (owner : ℕ), chat.Ordered → i + 1 = chat.requests →
        (handler chat owner).Ordered ∧ i + 1 = (handler chat owner).requests) :
      (listeners.foldl handler chat).Ordered :=
    (List.foldlRecOn listeners handler (motive := fun chat => chat.Ordered ∧ i + 1 = chat.requests)
      ⟨h, hi⟩ fun chat hchat owner _ => hhandler chat owner hchat.1 hchat.2).1
  cases event with
  | token text =>
      refine hfold fun chat _ h hi => ⟨h.onToken hi text, ?_⟩
      rw [Chat.onToken]
      split <;> exact hi
  | error message => exact hfold fun chat owner h hi => ⟨h.onError hi message owner, hi⟩

/-- With the latest request nothing is left. -/
theorem Ordered.finish (h : chat.Ordered) {i : ℕ} (hi : i + 1 = chat.requests)
    (fullReply : Option String) : (chat.finish i fullReply).Ordered := by
  have hreturned : ((chat.finish i fullReply).calls i).phase.isRunning = false := by
    rw [Chat.finish, phase_setPhase]
    rfl
  refine { h.unlisten with others := ?_, streaming := ⟨nofun, ?_⟩ }
  · intro k hother
    have hk : k ≠ i := by
      rintro rfl
      exact hother hi
    rw [Chat.finish, Chat.setPhase, calls_setCall_of_ne _ hk]
    exact h.others k hother
  · rintro ⟨-, k, hcount, hrunning⟩
    obtain rfl : k = i := Nat.succ.inj (hcount.trans hi.symm)
    rw [hreturned] at hrunning
    cases hrunning

theorem Ordered.fail (h : chat.Ordered) {i : ℕ} (hi : i + 1 = chat.requests) (message : String) :
    (chat.fail i message).Ordered := by
  rw [Chat.fail]
  split
  · exact h.finish hi none
  · refine Ordered.finish (h.display fun piece hpiece => ?_) hi none
    rwa [List.mem_singleton.mp hpiece]

theorem Ordered.reply (h : chat.Ordered) {i : ℕ} (hi : i + 1 = chat.requests)
    (result : Except String String) : (chat.reply i result).Ordered := by
  cases result with
  | error message => exact h.fail hi message
  | ok fullReply =>
      rw [Chat.reply]
      split
      · refine Ordered.finish (h.display fun piece hpiece => ?_) hi _
        rwa [List.mem_singleton.mp hpiece]
      · exact h.finish hi _

theorem Ordered.stop (h : chat.Ordered) : chat.stop.Ordered := by
  have hshown : ({ chat with stopRef := true }.unlisten).Ordered :=
    Ordered.unlisten { h with }
  have hstops : ∀ count ∈ chat.requests :: chat.stops, count ≤ chat.requests := by
    intro count hcount
    rcases List.mem_cons.mp hcount with rfl | hbefore
    · exact Nat.le_refl _
    · exact h.stops count hbefore
  rw [Chat.stop]
  split
  · exact { hshown.display h.buffer with
      stops := hstops
      streaming := ⟨nofun, fun ⟨hstopped, _⟩ => absurd List.mem_cons_self hstopped⟩ }
  · exact { hshown with
      stops := hstops
      streaming := ⟨nofun, fun ⟨hstopped, _⟩ => absurd List.mem_cons_self hstopped⟩ }

/-- A request that is sent when nothing is left of the others. -/
theorem Ordered.send (h : chat.Ordered) (hover : ∀ i < chat.requests, (chat.calls i).Over)
    (handleId : ℕ) (text : String) : (chat.send handleId text).Ordered := by
  have hcall : ((chat.send handleId text).calls chat.requests).phase.isRunning = true := by
    simp [Chat.send, CallPhase.isRunning]
  refine ⟨?_, nofun, ?_, ?_, ?_, ?_, ?_, ?_⟩
  · intro i hother
    have hi : i ≠ chat.requests := by
      rintro rfl
      exact hother rfl
    have hbefore : (chat.calls i).Over := by
      by_cases hcount : i + 1 = chat.requests
      · exact hover i (by omega)
      · exact h.others i hcount
    simpa [Chat.send, Function.update, hi] using hbefore
  · intro message hmessage
    rcases List.mem_append.mp hmessage with hbefore | hnew
    · exact h.own message hbefore
    · rcases List.mem_cons.mp hnew with rfl | hanswer
      · nofun
      · rw [List.mem_singleton.mp hanswer]
        exact fun _ => nofun
  · intro message hmessage
    have hlast : (chat.send handleId text).messages.getLast? =
        some ⟨.assistant, [], chat.requests⟩ := by
      simp [Chat.send]
    rw [hlast] at hmessage
    cases hmessage
    rfl
  · have hfresh : chat.requests + 1 ∉ chat.stops := fun hstopped =>
      absurd (h.stops _ hstopped) (Nat.not_succ_le_self _)
    exact ⟨fun _ => ⟨hfresh, chat.requests, rfl, hcall⟩, fun _ => rfl⟩
  · exact fun count hcount => Nat.le_succ_of_le (h.stops count hcount)
  · exact fun i hi => Nat.lt_succ_of_lt (h.tokenListeners i hi)
  · exact fun i hi => Nat.lt_succ_of_lt (h.errorListeners i hi)

/-- A listener of the latest request is registered. -/
theorem lt_of_mem_concat {listeners : List ℕ} {requests i : ℕ}
    (h : ∀ k ∈ listeners, k < requests) (hi : i + 1 = requests) :
    ∀ k ∈ listeners ++ [i], k < requests := by
  intro k hk
  rcases List.mem_append.mp hk with hbefore | hnew
  · exact h k hbefore
  · rw [List.mem_singleton.mp hnew]
    omega

/-- **Only the latest request may have anything left**, if each is sent alone. -/
theorem ordered_chatStep (h : chat.Ordered) {event : ChatEvent} {next : Chat}
    (alone : Alone chat event) (step : ChatStep chat event next) : next.Ordered := by
  cases step with
  | render handleId => exact { h with }
  | notSent => exact h
  | send text rendered accepted => exact h.send (alone accepted) _ text
  | stop => exact h.stop
  | @tokenRegistered i refs phase =>
      have hrunning : (chat.calls i).phase.isRunning = true := by rw [phase]; rfl
      have hphase : (chat.setPhase i (.tokenRegistered refs)).Ordered := h.setPhase hrunning rfl
      exact { hphase with
        tokenListeners := lt_of_mem_concat h.tokenListeners (h.latest_of_running hrunning) }
  | @errorRegistered i refs phase =>
      have hrunning : (chat.calls i).phase.isRunning = true := by rw [phase]; rfl
      have hphase : (chat.setPhase i (.errorRegistered refs)).Ordered := h.setPhase hrunning rfl
      exact { hphase with
        errorListeners := lt_of_mem_concat h.errorListeners (h.latest_of_running hrunning) }
  | @tokenListening i refs phase =>
      have hphase : (chat.setPhase i (.listenError chat.currentRefs)).Ordered :=
        h.setPhase (by rw [phase]; rfl) rfl
      exact { hphase with }
  | @errorListening i refs phase =>
      have hphase : (chat.setPhase i .asked).Ordered := h.setPhase (by rw [phase]; rfl) rfl
      exact { hphase with }
  | @start i phase | @refuse i message phase | @emit i fullText text phase
  | @streamFails i fullText host message phase | @streamEnds i fullText host phase =>
      have hrunning : (chat.calls i).phase.isRunning = true := by rw [phase]; rfl
      exact h.setCall hrunning.symm (Or.inr (h.latest_of_running hrunning))
  | @listenTokenFails i refs message phase | @listenErrorFails i refs message phase =>
      exact h.fail (h.latest_of_running (by rw [phase]; rfl)) message
  | @deliver i event rest pending =>
      have hi := h.latest_of_pending (by rw [pending]; exact List.cons_ne_nil _ _)
      have hrest : (chat.setCall i { chat.calls i with pending := rest }).Ordered :=
        h.setCall rfl (Or.inr hi)
      exact hrest.receive hi event
  | @reply i result phase => exact h.reply (h.latest_of_running (by rw [phase]; rfl)) result

/-- With only the latest request left, each message shows its own answer. -/
theorem Ordered.lawful (h : chat.Ordered) : chat.Lawful := by
  refine ⟨h.own, ?_, ?_⟩
  · intro event next i step hcompletes k hk
    have hi : i + 1 = chat.requests := by
      cases step with
      | @listenTokenFails j refs message phase | @listenErrorFails j refs message phase
      | @reply j result phase =>
          obtain rfl : j = i := hcompletes
          exact h.latest_of_running (by rw [phase]; rfl)
      | _ => exact hcompletes.elim
    have holder {listeners : List ℕ} (hlisteners : ∀ j ∈ listeners, j < chat.requests) :
        k ∉ listeners := by
      intro hthere
      have hcount := hlisteners k hthere
      omega
    exact ⟨fun hthere => absurd hthere (holder h.tokenListeners),
      fun hthere => absurd hthere (holder h.errorListeners)⟩
  · rw [h.streaming]
    constructor
    · rintro ⟨hgoing, i, hcount, hrunning⟩
      refine ⟨i, ⟨by omega, hcount ▸ hgoing, ?_⟩, hrunning⟩
      intro k hlater hsent
      omega
    · rintro ⟨i, ⟨-, hgoing, -⟩, hrunning⟩
      have hcount := h.latest_of_running hrunning
      exact ⟨hcount ▸ hgoing, i, hcount, hrunning⟩

/-! ## A request that is sent too early -/

/-- Of the requests only one has changed. -/
structure Keeps (i : ℕ) (chat last : Chat) : Prop where
  calls : ∀ k, k ≠ i → last.calls k = chat.calls k
  requests : last.requests = chat.requests
  stops : last.stops = chat.stops

theorem keeps_setCall (chat : Chat) (i : ℕ) (call : Call) : Keeps i chat (chat.setCall i call) :=
  ⟨fun _ hk => calls_setCall_of_ne chat hk call, rfl, rfl⟩

theorem Keeps.trans {i : ℕ} {next last : Chat} (h : Keeps i chat next) (hlast : Keeps i next last) :
    Keeps i chat last :=
  ⟨fun k hk => (hlast.calls k hk).trans (h.calls k hk), hlast.requests.trans h.requests,
    hlast.stops.trans h.stops⟩

theorem finish_keeps (chat : Chat) (i : ℕ) (fullReply : Option String) :
    (chat.finish i fullReply).streaming = false ∧ Keeps i chat (chat.finish i fullReply) :=
  ⟨rfl, fun _ hk => calls_setCall_of_ne _ hk _, rfl, rfl⟩

theorem fail_keeps (chat : Chat) (i : ℕ) (message : String) :
    (chat.fail i message).streaming = false ∧ Keeps i chat (chat.fail i message) := by
  rw [Chat.fail]
  split
  · exact finish_keeps chat i none
  · exact ⟨rfl, (finish_keeps (chat.display _) i none).2.calls, rfl, rfl⟩

theorem reply_keeps (chat : Chat) (i : ℕ) (result : Except String String) :
    (chat.reply i result).streaming = false ∧ Keeps i chat (chat.reply i result) := by
  cases result with
  | error message => exact fail_keeps chat i message
  | ok fullReply =>
      rw [Chat.reply]
      split
      · exact ⟨rfl, (finish_keeps (chat.display _) i _).2.calls, rfl, rfl⟩
      · exact finish_keeps chat i _

/-- A request that is running may return, and turns `streaming` off whatever else goes on. -/
theorem exists_returned {i : ℕ} (hrunning : (chat.calls i).phase.isRunning = true) :
    ∃ events last, Run ChatStep chat events last ∧ last.streaming = false ∧ Keeps i chat last := by
  have hreplying {chat : Chat} {result : Except String String}
      (h : (chat.calls i).phase = .replying result) :
      ∃ events last, Run ChatStep chat events last ∧ last.streaming = false ∧ Keeps i chat last :=
    ⟨_, _, Run.single (.reply h), reply_keeps chat i result⟩
  have hasked {chat : Chat} (h : (chat.calls i).phase = .asked) :
      ∃ events last, Run ChatStep chat events last ∧ last.streaming = false ∧
        Keeps i chat last := by
    obtain ⟨events, last, run, hoff, hkeeps⟩ :=
      hreplying (chat.phase_setPhase i (.replying (.error "")))
    exact ⟨_, last, (Run.single (.refuse "" h)).append run, hoff,
      (keeps_setCall chat i _).trans hkeeps⟩
  cases hcall : (chat.calls i).phase with
  | unsent | returned =>
      rw [hcall] at hrunning
      cases hrunning
  | listenToken refs => exact ⟨_, _, Run.single (.listenTokenFails "" hcall), fail_keeps chat i ""⟩
  | tokenRegistered refs =>
      have listening : Run ChatStep chat _ _ := Run.single (.tokenListening hcall)
      have failed := listening.snoc (.listenErrorFails "" (chat.phase_setPhase i _))
      obtain ⟨hoff, hkeeps⟩ := fail_keeps { chat.setPhase i (.listenError chat.currentRefs) with
        unlistenRefs := chat.unlistenRefs.modify refs ({ · with token := some i }) } i ""
      exact ⟨_, _, failed, hoff, (keeps_setCall chat i _).trans
        ⟨hkeeps.calls, hkeeps.requests, hkeeps.stops⟩⟩
  | listenError refs => exact ⟨_, _, Run.single (.listenErrorFails "" hcall), fail_keeps chat i ""⟩
  | errorRegistered refs =>
      have listening : Run ChatStep chat _ _ := Run.single (.errorListening hcall)
      obtain ⟨events, last, run, hoff, hkeeps⟩ :=
        @hasked { chat.setPhase i .asked with
          unlistenRefs := chat.unlistenRefs.modify refs ({ · with error := some i }) }
          (chat.phase_setPhase i _)
      exact ⟨_, last, listening.append run, hoff, (keeps_setCall chat i _).trans
        ⟨hkeeps.calls, hkeeps.requests, hkeeps.stops⟩⟩
  | asked => exact hasked hcall
  | streaming fullText =>
      obtain ⟨events, last, run, hoff, hkeeps⟩ :=
        hreplying (chat.phase_setPhase i (.replying (streamResult (.engine "") fullText none)))
      exact ⟨_, last, (Run.single (.streamEnds (.engine "") hcall)).append run, hoff,
        (keeps_setCall chat i _).trans hkeeps⟩
  | replying result => exact hreplying hcall

/-- The message that is shown last was made for this request, and tokens are not ignored. -/
def Shows (n : ℕ) (chat : Chat) : Prop :=
  chat.stopRef = false ∧ ∃ message, chat.messages.getLast? = some message ∧ message.request = n

/-- What is displayed goes to the last message, whatever it came of. -/
theorem Shows.display {n : ℕ} (h : Shows n chat) (content : Content) :
    Shows n (chat.display content) ∧
      ⟨.assistant, content, n⟩ ∈ (chat.display content).messages := by
  obtain ⟨hgoing, message, hlast, hrequest⟩ := h
  have hmessages : (chat.display content).messages =
      chat.messages.dropLast ++ [⟨.assistant, content, n⟩] := by
    rw [Chat.display, setLast, hlast]
    exact congrArg (fun request => chat.messages.dropLast ++ [⟨.assistant, content, request⟩])
      hrequest
  refine ⟨⟨hgoing, ⟨.assistant, content, n⟩, ?_, rfl⟩, ?_⟩
  · rw [hmessages, List.getLast?_concat]
  · rw [hmessages]
    exact List.mem_append_right _ (List.mem_singleton_self _)

theorem Shows.onToken {n : ℕ} (h : Shows n chat) (i : ℕ) (text : String) :
    Shows n (chat.onToken i text) ∧
      ⟨.assistant, chat.streamBuffer ++ [⟨i, text⟩], n⟩ ∈ (chat.onToken i text).messages := by
  rw [Chat.onToken, if_neg (by rw [h.1]; exact Bool.false_ne_true)]
  exact h.display _

/-- Where there is a listener, an event of another request is shown as if it were of this one. -/
theorem exists_foreign {n i : ℕ} (h : Shows n chat) (hother : i ≠ n)
    (htoken : n ∈ chat.tokenListeners) (herror : n ∈ chat.errorListeners) (event : StreamEvent) :
    ∃ message ∈ (chat.receive i event).messages, ¬ message.Own := by
  have hforeign {content : Content} {text : String} (hpiece : ⟨i, text⟩ ∈ content) :
      ¬ (⟨.assistant, content, n⟩ : DisplayMessage).Own := fun hown => hother (hown rfl _ hpiece)
  have hfold {handler : Chat → ℕ → Chat} {listeners : List ℕ} (hne : listeners ≠ [])
      (hhandler : ∀ (chat : Chat) (owner : ℕ), Shows n chat →
        Shows n (handler chat owner) ∧ ∃ message ∈ (handler chat owner).messages, ¬ message.Own) :
      ∃ message ∈ (listeners.foldl handler chat).messages, ¬ message.Own := by
    obtain ⟨early, owner, rfl⟩ := List.eq_nil_or_concat listeners |>.resolve_left hne
    have hearly : Shows n (early.foldl handler chat) :=
      List.foldlRecOn early handler (motive := Shows n) h fun chat hchat owner _ =>
        (hhandler chat owner hchat).1
    rw [List.concat_eq_append, List.foldl_append]
    exact (hhandler _ owner hearly).2
  cases event with
  | token text =>
      refine hfold (List.ne_nil_of_mem htoken) fun chat _ hchat => ?_
      obtain ⟨hshows, hshown⟩ := hchat.onToken i text
      exact ⟨hshows, _, hshown, hforeign (List.mem_append_right _ (List.mem_singleton_self _))⟩
  | error message =>
      refine hfold (List.ne_nil_of_mem herror) fun chat _ hchat => ?_
      obtain ⟨hshows, hshown⟩ := hchat.display [⟨i, "Error: " ++ message⟩]
      exact ⟨hshows, _, hshown, hforeign (List.mem_singleton_self _)⟩

/-- A request that has just been sent may come to listen to both events. -/
theorem exists_listening (chat : Chat) (handleId : ℕ) (text : String) :
    ∃ events next, Run ChatStep (chat.send handleId text) events next ∧
      Shows chat.requests next ∧ chat.requests ∈ next.tokenListeners ∧
      chat.requests ∈ next.errorListeners ∧
      ∀ i, i ≠ chat.requests → next.calls i = chat.calls i := by
  have registered : Run ChatStep (chat.send handleId text) _ _ :=
    Run.single (@ChatStep.tokenRegistered _ chat.requests chat.currentRefs (by simp [Chat.send]))
  have listening := registered.snoc (.tokenListening (phase_setPhase _ _ _))
  have both := listening.snoc (.errorRegistered (phase_setPhase _ _ _))
  refine ⟨_, _, both, ⟨rfl, ⟨.assistant, [], chat.requests⟩, ?_, rfl⟩, ?_, ?_, ?_⟩
  · show (chat.messages ++ _).getLast? = _
    simp
  · exact List.mem_append_right _ (List.mem_singleton_self _)
  · exact List.mem_append_right _ (List.mem_singleton_self _)
  · intro i hi
    simp only [Chat.setPhase, calls_setCall_of_ne _ hi]
    simp [Chat.send, Function.update, hi]

/-- **A request that is sent too early can go wrong**, whatever is left of an earlier one. -/
theorem exists_unlawful (hstops : ∀ count ∈ chat.stops, count ≤ chat.requests) {i : ℕ}
    (hi : i < chat.requests) (hleft : ¬ (chat.calls i).Over) (handleId : ℕ) (text : String) :
    ∃ events last, Run ChatStep (chat.send handleId text) events last ∧ ¬ last.Lawful := by
  have hother : i ≠ chat.requests := Nat.ne_of_lt hi
  by_cases hrunning : (chat.calls i).phase.isRunning = true
  · have hsame : (chat.send handleId text).calls i = chat.calls i := by
      simp [Chat.send, Function.update, hother]
    obtain ⟨events, last, run, hoff, hkeeps⟩ :=
      @exists_returned (chat.send handleId text) i (by rw [hsame]; exact hrunning)
    refine ⟨events, last, run, fun hlawful => ?_⟩
    have hrequests : last.requests = chat.requests + 1 := hkeeps.requests
    have hfresh : chat.requests + 1 ∉ last.stops := by
      rw [hkeeps.stops]
      exact fun hstopped => absurd (hstops _ hstopped) (Nat.not_succ_le_self _)
    have hnew : (last.calls chat.requests).phase.isRunning = true := by
      rw [hkeeps.calls _ hother.symm]
      simp [Chat.send, CallPhase.isRunning]
    have hlatest : last.LatestUnstopped chat.requests :=
      ⟨by omega, hfresh, fun k hk hcount => by omega⟩
    have hon := hlawful.streaming.mpr ⟨chat.requests, hlatest, hnew⟩
    rw [hoff] at hon
    cases hon
  · obtain ⟨events, next, run, hshows, htoken, herror, hcalls⟩ :=
      exists_listening chat handleId text
    have hpending : (chat.calls i).pending ≠ [] := fun hnone =>
      hleft ⟨Bool.eq_false_iff.mpr hrunning, hnone⟩
    obtain ⟨event, rest, hevent⟩ := List.exists_cons_of_ne_nil hpending
    have delivered := run.snoc (.deliver (by rw [hcalls i hother]; exact hevent))
    refine ⟨_, _, delivered, fun hlawful => ?_⟩
    obtain ⟨message, hmessage, hforeign⟩ :=
      @exists_foreign (next.setCall i { next.calls i with pending := rest }) _ _ hshows hother
        htoken herror event
    exact hforeign (hlawful.own message hmessage)

end Chat

/-! ## The result -/

/-- **Each message shows its own answer** in every chat whose requests are sent alone. And as
soon as one is sent when something is left of an earlier one, the chat may go wrong. -/
theorem own_answers (handleId : Option ℕ) {events : List ChatEvent} {chat : Chat}
    (run : Run (Guarded Alone ChatStep) (newChat handleId) events chat) :
    chat.Lawful ∧ ∀ event next, ChatStep chat event next → ¬ Alone chat event →
      ∃ later last, Run ChatStep next later last ∧ ¬ last.Lawful := by
  have hordered : chat.Ordered :=
    @Run.invariant _ _ _ Chat.Ordered (fun h guarded => Chat.ordered_chatStep h guarded.1 guarded.2)
      _ _ _ run (Chat.ordered_newChat handleId)
  refine ⟨hordered.lawful, ?_⟩
  intro event next step overlapping
  cases step with
  | send text rendered accepted =>
      have hleft : ∃ i < chat.requests, ¬ (chat.calls i).Over := by
        by_contra hnone
        exact overlapping fun _ i hi => by_contra fun hover => hnone ⟨i, hi, hover⟩
      obtain ⟨i, hi, hover⟩ := hleft
      exact Chat.exists_unlawful hordered.stops hi hover _ text
  | notSent text rendered refused =>
      exact absurd (fun accepted => absurd accepted (by rw [refused]; exact Bool.false_ne_true))
        overlapping
  | _ => exact absurd trivial overlapping

/-- What `send` has seen of a chat with a model. -/
def ready : Closure := ⟨some 1, false⟩

/-- A chat in which a request is stopped, and the next one is sent when that has returned. -/
theorem own_answers_returned :
    ∃ events chat, Run (Guarded Alone ChatStep) (newChat (some 1)) events chat ∧
      chat.requests = 2 ∧ chat.Lawful := by
  have sent : Run (Guarded Alone ChatStep) (newChat (some 1)) _ _ :=
    Run.single ⟨by exact fun _ => nofun, @ChatStep.send _ ready "a" (by decide) rfl⟩
  have registered := sent.snoc ⟨by trivial, @ChatStep.tokenRegistered _ 0 _ rfl⟩
  have listening := registered.snoc ⟨by trivial, @ChatStep.tokenListening _ 0 _ rfl⟩
  have both := listening.snoc ⟨by trivial, @ChatStep.errorRegistered _ 0 _ rfl⟩
  have asked := both.snoc ⟨by trivial, @ChatStep.errorListening _ 0 _ rfl⟩
  have started := asked.snoc ⟨by trivial, @ChatStep.start _ 0 rfl⟩
  have emitted := started.snoc ⟨by trivial, @ChatStep.emit _ 0 _ "x" rfl⟩
  have delivered := emitted.snoc ⟨by trivial, @ChatStep.deliver _ 0 _ _ rfl⟩
  have stopped := delivered.snoc ⟨by trivial, .stop⟩
  have ended := stopped.snoc ⟨by trivial, @ChatStep.streamEnds _ 0 _ (.engine "Candle") rfl⟩
  have replied := ended.snoc ⟨by trivial, @ChatStep.reply _ 0 _ rfl⟩
  have resent := replied.snoc ⟨by
    intro _ i hi
    obtain rfl : i = 0 := by
      change i < 1 at hi
      omega
    exact ⟨rfl, rfl⟩, @ChatStep.send _ ready "b" (by decide) rfl⟩
  exact ⟨_, _, resent, rfl, (own_answers (some 1) resent).1⟩

/-- A request that is sent when a stopped one still runs shows a token of that. When that
completes, it removes the listeners of the new one, and turns `streaming` off while the new
one is running. -/
theorem foreign_answer :
    ∃ events chat next, Run ChatStep (newChat (some 1)) events chat ∧
      ChatStep chat (.reply 0) next ∧
      (∃ message ∈ chat.messages, ¬ message.Own) ∧
      1 ∈ chat.tokenListeners ∧ 1 ∉ next.tokenListeners ∧
      next.streaming = false ∧ (next.calls 1).phase.isRunning = true ∧ 2 ∉ next.stops := by
  have sent : Run ChatStep (newChat (some 1)) _ _ :=
    Run.single (@ChatStep.send _ ready "a" (by decide) rfl)
  have registered := sent.snoc (@ChatStep.tokenRegistered _ 0 _ rfl)
  have listening := registered.snoc (@ChatStep.tokenListening _ 0 _ rfl)
  have both := listening.snoc (@ChatStep.errorRegistered _ 0 _ rfl)
  have asked := both.snoc (@ChatStep.errorListening _ 0 _ rfl)
  have started := asked.snoc (@ChatStep.start _ 0 rfl)
  have stopped := started.snoc .stop
  have resent := stopped.snoc (@ChatStep.send _ ready "b" (by decide) rfl)
  have registered' := resent.snoc (@ChatStep.tokenRegistered _ 1 _ rfl)
  have listening' := registered'.snoc (@ChatStep.tokenListening _ 1 _ rfl)
  have both' := listening'.snoc (@ChatStep.errorRegistered _ 1 _ rfl)
  have asked' := both'.snoc (@ChatStep.errorListening _ 1 _ rfl)
  have emitted := asked'.snoc (@ChatStep.emit _ 0 _ "old" rfl)
  have delivered := emitted.snoc (@ChatStep.deliver _ 0 _ _ rfl)
  have ended := delivered.snoc (@ChatStep.streamEnds _ 0 _ (.engine "Candle") rfl)
  refine ⟨_, _, _, ended, .reply rfl, ⟨⟨.assistant, [⟨0, "old"⟩], 1⟩, ?_, ?_⟩, ?_, ?_, ?_, ?_, ?_⟩
  · decide
  · exact fun hown => absurd (hown rfl _ (List.mem_singleton_self _)) (by decide)
  · decide
  · decide
  · decide
  · decide
  · decide

end HiveBear.Desktop
