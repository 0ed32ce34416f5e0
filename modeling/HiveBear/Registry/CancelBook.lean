/-
# The cancellation registry by itself

A table holds one channel for each model id. A download registers a channel when it starts and
takes the entry of its id away when it ends, and a cancellation takes the entry away and sends on
its channel. The entry does not say whose it is: a second download of an id overwrites the channel
of the first, and whichever of the two ends first takes the entry away.

For each move of such a registry there is a condition under which it keeps the registry exact, and
without which it does not.
-/

import Mathlib.Logic.Function.Basic
import Mathlib.Data.List.Basic
import Mathlib.Order.Basic
import Mathlib.Data.Nat.Init
import Mathlib.Order.Nat

namespace HiveBear.Registry

/-- An entry of a table from which a key is taken away is an entry of another key. -/
theorem update_none_eq_some_iff {K V : Type*} [DecidableEq K] {table : K → Option V} {key other : K}
    {value : V} :
    Function.update table key none other = some value ↔ other ≠ key ∧ table other = some value := by
  rw [Function.update_apply]
  split_ifs with h <;> simp [h]

/-! ## The registry by itself -/

/-- The channels that are registered and those that have been used, and for each download in
progress its model id and its own channel. -/
@[ext]
structure CancelBook (D : Type*) where
  cancellations : String → Option ℕ
  sent : List ℕ
  newest : ℕ
  current : D → Option (String × ℕ)

/-- What a step does to the registry. -/
inductive BookMove (D : Type*)
  | stay
  /-- A download starts, and registers a channel under its id. -/
  | register (d : D) (key : String)
  /-- A download ends and takes the entry of its id away. -/
  | leave (d : D)
  /-- A download ends and leaves the entry of its id where it is. -/
  | forget (d : D)
  | cancel (key : String)

namespace CancelBook

variable {D : Type*}

/-- An uncancelled download of this id is in progress. -/
def Uncancelled (book : CancelBook D) (key : String) (d : D) : Prop :=
  ∃ channel, book.current d = some (key, channel) ∧ channel ∉ book.sent

/-- The state behind a call of `cancel_download`. -/
def cancelDownload (book : CancelBook D) (key : String) : CancelBook D :=
  match book.cancellations key with
  | some channel =>
      { book with
        cancellations := Function.update book.cancellations key none
        sent := channel :: book.sent }
  | none => book

/-- **Exact.** An id is registered just if an uncancelled download of it is in progress, and
`cancel_download` returns true only where it reaches every download of the id. -/
structure Exact (book : CancelBook D) : Prop where
  listed : ∀ key, (book.cancellations key).isSome ↔ ∃ d, book.Uncancelled key d
  reached : ∀ key, (book.cancellations key).isSome → ∀ d channel,
    book.current d = some (key, channel) → channel ∈ (book.cancelDownload key).sent

/-- Channels are never used twice. -/
structure Sound (book : CancelBook D) : Prop where
  current_le : ∀ {d key channel}, book.current d = some (key, channel) → channel ≤ book.newest
  distinct : ∀ {d d' key key' channel}, book.current d = some (key, channel) →
    book.current d' = some (key', channel) → d = d'
  registered_le : ∀ {key channel}, book.cancellations key = some channel → channel ≤ book.newest
  sent_le : ∀ {channel}, channel ∈ book.sent → channel ≤ book.newest

/-- A move is possible: only a download that is not in progress registers. -/
def Possible (book : CancelBook D) : BookMove D → Prop
  | .register d _ => book.current d = none
  | _ => True

/-- **The condition.** A download registers only while no uncancelled download of its id is in
progress, it takes the entry away only while no other one is, and it leaves the entry behind only
where it has been cancelled. -/
def Clean (book : CancelBook D) : BookMove D → Prop
  | .register _ key => ∀ other, ¬ book.Uncancelled key other
  | .leave d => ∀ key channel, book.current d = some (key, channel) →
      ∀ other, book.Uncancelled key other → other = d
  | .forget d => ∀ key channel, book.current d = some (key, channel) → channel ∈ book.sent
  | _ => True

section

variable [DecidableEq D]

def next (book : CancelBook D) : BookMove D → CancelBook D
  | .stay => book
  | .register d key =>
      { book with
        cancellations := Function.update book.cancellations key (some (book.newest + 1))
        newest := book.newest + 1
        current := Function.update book.current d (some (key, book.newest + 1)) }
  | .leave d =>
      match book.current d with
      | some (key, _) =>
          { book with
            cancellations := Function.update book.cancellations key none
            current := Function.update book.current d none }
      | none => book
  | .forget d => { book with current := Function.update book.current d none }
  | .cancel key => book.cancelDownload key

end

theorem cancelDownload_some {book : CancelBook D} {key : String} {channel : ℕ}
    (h : book.cancellations key = some channel) :
    book.cancelDownload key =
      { book with
        cancellations := Function.update book.cancellations key none
        sent := channel :: book.sent } := by
  rw [cancelDownload, h]

theorem cancelDownload_none {book : CancelBook D} {key : String}
    (h : book.cancellations key = none) : book.cancelDownload key = book := by
  rw [cancelDownload, h]

/-- What a cancellation sends on depends on the entry and on what has been sent. -/
theorem mem_sent_cancelDownload {book : CancelBook D} {key : String} {channel : ℕ} :
    channel ∈ (book.cancelDownload key).sent ↔
      book.cancellations key = some channel ∨ channel ∈ book.sent := by
  rw [cancelDownload]
  cases book.cancellations key with
  | none => simp
  | some registered => simp [eq_comm]

/-- In an exact registry the uncancelled download of an id has the channel that is registered. -/
theorem Exact.registered {book : CancelBook D} {key : String} {d : D} {channel : ℕ}
    (h : book.Exact) (hcurrent : book.current d = some (key, channel))
    (hsent : channel ∉ book.sent) : book.cancellations key = some channel := by
  have hlisted := (h.listed key).mpr ⟨d, channel, hcurrent, hsent⟩
  exact (mem_sent_cancelDownload.mp (h.reached key hlisted d channel hcurrent)).resolve_right hsent

/-- There is one uncancelled download of an id at most. -/
theorem Exact.unique {book : CancelBook D} {key : String} {d d' : D} (h : book.Exact)
    (hsound : book.Sound) (hd : book.Uncancelled key d) (hd' : book.Uncancelled key d') : d = d' := by
  obtain ⟨channel, hcurrent, hsent⟩ := hd
  obtain ⟨channel', hcurrent', hsent'⟩ := hd'
  have hregistered := h.registered hcurrent hsent
  have hregistered' := h.registered hcurrent' hsent'
  rw [hregistered] at hregistered'
  cases hregistered'
  exact hsound.distinct hcurrent hcurrent'

/-- A registered channel is that of an uncancelled download of the id. -/
theorem Exact.holder {book : CancelBook D} {key : String} {channel : ℕ} (h : book.Exact)
    (hregistered : book.cancellations key = some channel) :
    ∃ d, book.current d = some (key, channel) ∧ channel ∉ book.sent := by
  obtain ⟨d, own, hcurrent, hsent⟩ := (h.listed key).mp (by rw [hregistered]; rfl)
  have hown := h.registered hcurrent hsent
  rw [hregistered] at hown
  cases hown
  exact ⟨d, hcurrent, hsent⟩

/-! ### One move -/

section

variable [DecidableEq D] {book : CancelBook D}

/-- A download that registers has a channel that is new. -/
theorem Sound.register (h : book.Sound) (d : D) (key : String) :
    (book.next (.register d key)).Sound := by
  refine ⟨?_, ?_, ?_, ?_⟩
  · intro e key' channel he
    simp only [next, Function.update_apply] at he ⊢
    split_ifs at he
    · cases he
      exact le_rfl
    · exact (h.current_le he).trans (Nat.le_succ _)
  · intro e e' key' key'' channel he he'
    simp only [next, Function.update_apply] at he he'
    split_ifs at he he' with hd hd' hd'
    · exact hd.trans hd'.symm
    · cases he
      exact absurd (h.current_le he') (Nat.not_succ_le_self _)
    · cases he'
      exact absurd (h.current_le he) (Nat.not_succ_le_self _)
    · exact h.distinct he he'
  · intro key' channel hkey
    simp only [next, Function.update_apply] at hkey ⊢
    split_ifs at hkey
    · cases hkey
      exact le_rfl
    · exact (h.registered_le hkey).trans (Nat.le_succ _)
  · intro channel hchannel
    exact (h.sent_le hchannel).trans (Nat.le_succ _)

/-- A download may be taken out. -/
theorem Sound.forget (h : book.Sound) (d : D) : (book.next (.forget d)).Sound where
  current_le he := h.current_le (update_none_eq_some_iff.mp he).2
  distinct he he' :=
    h.distinct (update_none_eq_some_iff.mp he).2 (update_none_eq_some_iff.mp he').2
  registered_le := h.registered_le
  sent_le := h.sent_le

omit [DecidableEq D] in
/-- So may an entry. -/
theorem Sound.unregister (h : book.Sound) (key : String) :
    Sound { book with cancellations := Function.update book.cancellations key none } where
  current_le := h.current_le
  distinct := h.distinct
  registered_le hkey := h.registered_le (update_none_eq_some_iff.mp hkey).2
  sent_le := h.sent_le

theorem sound_next {move : BookMove D} (h : book.Sound) : (book.next move).Sound := by
  cases move with
  | stay => exact h
  | register d key => exact h.register d key
  | leave d =>
      rw [next]
      cases hd : book.current d with
      | none => exact h
      | some registered => exact (h.unregister registered.1).forget d
  | forget d => exact h.forget d
  | cancel key =>
      rw [next]
      cases hkey : book.cancellations key with
      | none => rwa [cancelDownload_none hkey]
      | some channel =>
          rw [cancelDownload_some hkey]
          obtain ⟨hcurrent, hdistinct, hregistered, -⟩ := h.unregister key
          refine ⟨hcurrent, hdistinct, hregistered, ?_⟩
          intro channel' hchannel
          rcases List.mem_cons.mp hchannel with rfl | hearlier
          · exact h.registered_le hkey
          · exact h.sent_le hearlier

/-- **Registering** keeps the registry exact just if no uncancelled download of the id is in
progress. -/
theorem exact_register_iff (h : book.Exact) (hsound : book.Sound) {d : D} {key : String}
    (hidle : book.current d = none) :
    (book.next (.register d key)).Exact ↔ ∀ other, ¬ book.Uncancelled key other := by
  have hfresh : book.newest + 1 ∉ book.sent := fun hmem =>
    Nat.not_succ_le_self _ (hsound.sent_le hmem)
  have hat : ∀ {e key' channel}, Function.update book.current d (some (key, book.newest + 1)) e =
      some (key', channel) ↔ e = d ∧ key' = key ∧ channel = book.newest + 1 ∨
        book.current e = some (key', channel) := by
    intro e key' channel
    rw [Function.update_apply]
    split_ifs with he
    · simp [he, hidle, eq_comm]
    · simp [he]
  constructor
  · rintro hexact other ⟨channel, hother, hsent⟩
    have hregistered :
        (book.next (.register d key)).cancellations key = some (book.newest + 1) :=
      Function.update_self ..
    have hreached := hexact.reached key (by rw [hregistered]; rfl) other channel
      (hat.mpr (Or.inr hother))
    rcases mem_sent_cancelDownload.mp hreached with hnewest | hearlier
    · rw [hregistered] at hnewest
      cases hnewest
      exact Nat.not_succ_le_self _ (hsound.current_le hother)
    · exact hsent hearlier
  · intro hnone
    refine ⟨?_, ?_⟩
    · intro key'
      by_cases hkey : key' = key
      · subst hkey
        refine iff_of_true (by simp [next]) ⟨d, book.newest + 1, hat.mpr (Or.inl ⟨rfl, rfl, rfl⟩), ?_⟩
        exact hfresh
      · have hsame : (book.next (.register d key)).cancellations key' = book.cancellations key' :=
          Function.update_of_ne hkey ..
        rw [hsame, h.listed key']
        refine exists_congr fun e => exists_congr fun channel => and_congr_left' ?_
        exact (or_iff_right fun hnew => hkey hnew.2.1).symm.trans hat.symm
    · intro key' hlisted e channel he
      rw [mem_sent_cancelDownload]
      rcases hat.mp he with ⟨-, rfl, rfl⟩ | hearlier
      · exact Or.inl (Function.update_self ..)
      · by_cases hkey : key' = key
        · subst hkey
          refine Or.inr (of_not_not fun hsent => ?_)
          exact hnone e ⟨channel, hearlier, hsent⟩
        · have hsame : (book.next (.register d key)).cancellations key' = book.cancellations key' :=
            Function.update_of_ne hkey ..
          rw [hsame] at hlisted ⊢
          exact mem_sent_cancelDownload.mp (h.reached key' hlisted e channel hearlier)

/-- **Leaving** keeps the registry exact just if no other uncancelled download of the id is in
progress. -/
theorem exact_leave_iff (h : book.Exact) {d : D} {key : String} {channel : ℕ}
    (hd : book.current d = some (key, channel)) :
    (book.next (.leave d)).Exact ↔ ∀ other, book.Uncancelled key other → other = d := by
  have hnext : book.next (.leave d) =
      { book with
        cancellations := Function.update book.cancellations key none
        current := Function.update book.current d none } := by
    rw [next, hd]
  rw [hnext]
  constructor
  · rintro hexact other ⟨own, hother, hsent⟩
    by_contra hne
    have hlisted := (hexact.listed key).mpr
      ⟨other, own, update_none_eq_some_iff.mpr ⟨hne, hother⟩, hsent⟩
    simp at hlisted
  · intro halone
    refine ⟨?_, ?_⟩
    · intro key'
      by_cases hkey : key' = key
      · subst hkey
        refine iff_of_false (by simp) ?_
        rintro ⟨e, own, he, hsent⟩
        obtain ⟨hne, hearlier⟩ := update_none_eq_some_iff.mp he
        exact hne (halone e ⟨own, hearlier, hsent⟩)
      · have hsame : Function.update book.cancellations key none key' = book.cancellations key' :=
          Function.update_of_ne hkey ..
        dsimp only
        rw [hsame, h.listed key']
        refine exists_congr fun e => exists_congr fun own => and_congr_left' ?_
        refine Iff.trans ?_ update_none_eq_some_iff.symm
        refine (and_iff_right_of_imp fun he => ?_).symm
        rintro rfl
        rw [hd] at he
        cases he
        exact hkey rfl
    · intro key' hlisted e own he
      rw [mem_sent_cancelDownload]
      obtain ⟨-, hearlier⟩ := update_none_eq_some_iff.mp he
      by_cases hkey : key' = key
      · subst hkey
        simp at hlisted
      · dsimp only at hlisted ⊢
        rw [Function.update_of_ne hkey] at hlisted ⊢
        exact mem_sent_cancelDownload.mp (h.reached key' hlisted e own hearlier)

/-- **Forgetting** keeps the registry exact just if the download has been cancelled. -/
theorem exact_forget_iff (h : book.Exact) (hsound : book.Sound) {d : D} {key : String}
    {channel : ℕ} (hd : book.current d = some (key, channel)) :
    (book.next (.forget d)).Exact ↔ channel ∈ book.sent := by
  constructor
  · intro hexact
    by_contra hsent
    obtain ⟨other, own, hother, hown⟩ :=
      (hexact.listed key).mp ((h.listed key).mpr ⟨d, channel, hd, hsent⟩)
    obtain ⟨hne, hearlier⟩ := update_none_eq_some_iff.mp hother
    exact hne (h.unique hsound ⟨own, hearlier, hown⟩ ⟨channel, hd, hsent⟩)
  · intro hsent
    refine ⟨?_, ?_⟩
    · intro key'
      refine (h.listed key').trans ?_
      refine exists_congr fun e => exists_congr fun own => and_congr_left ?_
      intro hown
      refine Iff.trans ?_ update_none_eq_some_iff.symm
      refine (and_iff_right_of_imp fun he => ?_).symm
      rintro rfl
      rw [hd] at he
      cases he
      exact hown hsent
    · intro key' hlisted e own he
      have hreached := h.reached key' hlisted e own (update_none_eq_some_iff.mp he).2
      rw [mem_sent_cancelDownload] at hreached ⊢
      exact hreached

/-- **Cancelling** keeps the registry exact. -/
theorem exact_cancel (h : book.Exact) (hsound : book.Sound) (key : String) :
    (book.next (.cancel key)).Exact := by
  rw [next]
  cases hkey : book.cancellations key with
  | none => rwa [cancelDownload_none hkey]
  | some channel =>
      rw [cancelDownload_some hkey]
      obtain ⟨holder, hholder, -⟩ := h.holder hkey
      refine ⟨?_, ?_⟩
      · intro key'
        by_cases hsame : key' = key
        · subst hsame
          refine iff_of_false (by simp) ?_
          rintro ⟨e, own, he, hsent⟩
          have hmem := h.reached key' (by rw [hkey]; rfl) e own he
          rw [cancelDownload_some hkey] at hmem
          exact hsent hmem
        · dsimp only
          rw [Function.update_of_ne hsame, h.listed key']
          refine exists_congr fun e => exists_congr fun own => and_congr_right fun he => ?_
          rw [List.mem_cons, not_or]
          refine (and_iff_right ?_).symm
          -- the channel that is sent on belongs to a download of the other id
          rintro rfl
          obtain rfl := hsound.distinct he hholder
          rw [hholder] at he
          cases he
          exact hsame rfl
      · intro key' hlisted e own he
        rw [mem_sent_cancelDownload]
        by_cases hsame : key' = key
        · subst hsame
          simp at hlisted
        · dsimp only at hlisted ⊢
          rw [Function.update_of_ne hsame] at hlisted ⊢
          rcases mem_sent_cancelDownload.mp (h.reached key' hlisted e own he) with hreg | hsent
          · exact Or.inl hreg
          · exact Or.inr (List.mem_cons_of_mem _ hsent)

/-- **One move.** An exact registry stays exact just if the move is clean. -/
theorem exact_next_iff {move : BookMove D} (h : book.Exact) (hsound : book.Sound)
    (hpossible : book.Possible move) : (book.next move).Exact ↔ book.Clean move := by
  cases move with
  | stay => exact iff_of_true h trivial
  | register d key => exact exact_register_iff h hsound hpossible
  | leave d =>
      cases hd : book.current d with
      | none =>
          have hsame : book.next (.leave d) = book := by rw [next, hd]
          rw [hsame]
          refine iff_of_true h fun key channel hcurrent => ?_
          rw [hd] at hcurrent
          cases hcurrent
      | some registered =>
          obtain ⟨key, channel⟩ := registered
          rw [exact_leave_iff h hd, Clean, hd]
          constructor
          · rintro halone _ _ ⟨⟩
            exact halone
          · intro halone
            exact halone key channel rfl
  | forget d =>
      cases hd : book.current d with
      | none =>
          have hsame : book.next (.forget d) = book := by
            rw [next, ← hd, Function.update_eq_self]
          rw [hsame]
          refine iff_of_true h fun key channel hcurrent => ?_
          rw [hd] at hcurrent
          cases hcurrent
      | some registered =>
          obtain ⟨key, channel⟩ := registered
          rw [exact_forget_iff h hsound hd, Clean, hd]
          constructor
          · rintro hsent _ _ ⟨⟩
            exact hsent
          · intro hsent
            exact hsent key channel rfl
  | cancel key => exact iff_of_true (exact_cancel h hsound key) trivial

end

end CancelBook

end HiveBear.Registry
