/-
# Obligations of a machine

Some actions of a machine leave it owing something, others discharge what it owes. When
it reports how it fared, or has ended, nothing may be owed any more. A trace is followed
action by action: `owing` is what is owed after it, and `ReportsSettled` says that
nothing is owed at any report in it.

`settled_run_iff` turns this into one condition on the messages a machine reads. While
it waits, what it owes is `due`; a message is bad if the machine reacts to it by
reporting before it has settled, or by ending without settling; and every other reaction
leads back to a state with what is due there. Then a run settles exactly if it meets no
bad message.

A machine that answers every message once can be compared with another one answer by
answer. If valid messages keep their states related, the answers of two whole runs agree
exactly if no message on which they differ arrives.
-/

import HiveBear.Library.MessageMachine

namespace MessageMachine

variable {S M A D : Type*} (step : S → M → S × List A) (charge : D → A → D)
  (isReport : A → Bool) (nothing : D → Prop) (waiting : S → Prop)

/-- What is owed after a trace. -/
def owing (owed : D) (trace : List A) : D := trace.foldl charge owed

/-- Nothing is owed at any report of a trace. -/
def ReportsSettled : D → List A → Prop
  | _, [] => True
  | owed, action :: rest =>
      (isReport action = true → nothing owed) ∧ ReportsSettled (charge owed action) rest

/-- Nothing is owed at any report, nor at the end of a machine that does not wait. -/
def Settled (owed : D) (result : S × List A) : Prop :=
  ReportsSettled charge isReport nothing owed result.2 ∧
    (¬ waiting result.1 → nothing (owing charge owed result.2))

/-- One of these messages is bad in the state it arrives in. -/
def Meets (bad : S → M → Prop) : S → List M → Prop
  | _, [] => False
  | s, m :: ms => bad s m ∨ Meets bad (step s m).1 ms

variable {step charge isReport nothing waiting}

@[simp]
theorem owing_append (owed : D) (first second : List A) :
    owing charge owed (first ++ second) = owing charge (owing charge owed first) second :=
  List.foldl_append

/-- The reports of a trace are those of its parts. -/
theorem reportsSettled_append {owed : D} {first second : List A} :
    ReportsSettled charge isReport nothing owed (first ++ second) ↔
      ReportsSettled charge isReport nothing owed first ∧
        ReportsSettled charge isReport nothing (owing charge owed first) second := by
  induction first generalizing owed with
  | nil => simp [ReportsSettled, owing]
  | cons action rest ih =>
      rw [List.cons_append, ReportsSettled, ReportsSettled, ih, and_assoc]
      rfl

/-- Without reports there is nothing to settle. -/
theorem reportsSettled_of_no_report {owed : D} {trace : List A}
    (h : ∀ action ∈ trace, isReport action = false) :
    ReportsSettled charge isReport nothing owed trace := by
  induction trace generalizing owed with
  | nil => trivial
  | cons action rest ih =>
      rw [List.forall_mem_cons] at h
      refine ⟨fun hreport => ?_, ih h.2⟩
      rw [h.1] at hreport
      cases hreport

/-- A trace that has settled stays so if it goes on in a settled way. -/
theorem settled_append_iff {owed : D} {first : List A} {result : S × List A}
    (h : ReportsSettled charge isReport nothing owed first) :
    Settled charge isReport nothing waiting owed (result.1, first ++ result.2) ↔
      Settled charge isReport nothing waiting (owing charge owed first) result := by
  rw [Settled, Settled, reportsSettled_append, owing_append, and_assoc]
  exact and_iff_right h

/-- The debts of a machine: what is due in its states, and what bad messages do. -/
structure Accounts (step : S → M → S × List A) (charge : D → A → D) (isReport : A → Bool)
    (nothing : D → Prop) (waiting : S → Prop) (due : S → D → Prop) (bad : S → M → Prop) :
    Prop where
  rests : ∀ {s owed}, due s owed → ¬ waiting s → nothing owed
  good : ∀ {s owed m}, due s owed → ¬ bad s m →
    ReportsSettled charge isReport nothing owed (step s m).2 ∧
      due (step s m).1 (owing charge owed (step s m).2)
  fails : ∀ {s owed m}, due s owed → bad s m →
    ¬ ReportsSettled charge isReport nothing owed (step s m).2 ∨
      Ended step (step s m).1 ∧ ¬ waiting (step s m).1 ∧
        ¬ nothing (owing charge owed (step s m).2)

/-- **When a machine settles.** -/
theorem settled_run_iff {due : S → D → Prop} {bad : S → M → Prop}
    (haccounts : Accounts step charge isReport nothing waiting due bad) {s : S} {owed : D}
    (hdue : due s owed) (ms : List M) :
    Settled charge isReport nothing waiting owed (run step s ms) ↔ ¬ Meets step bad s ms := by
  induction ms generalizing s owed with
  | nil => exact iff_of_true ⟨trivial, haccounts.rests hdue⟩ id
  | cons m ms ih =>
      by_cases hbad : bad s m
      · apply iff_of_false _ (not_not.mpr (Or.inl hbad))
        intro hsettled
        rcases haccounts.fails hdue hbad with hreport | ⟨hended, hover, howed⟩
        · exact hreport (reportsSettled_append.mp hsettled.1).1
        · rw [run_cons_of_ended hended] at hsettled
          exact howed (hsettled.2 hover)
      · obtain ⟨hreports, hnext⟩ := haccounts.good hdue hbad
        rw [Meets, or_iff_right hbad, ← ih hnext, run]
        exact settled_append_iff hreports

end MessageMachine

/-! ## Machines in lockstep -/

namespace MessageMachine

variable {S T M A : Type*}

/-- The machine that answers every message once. -/
def answering (next : S → M → S) (answer : S → M → A) (s : S) (m : M) : S × List A :=
  (next s m, [answer s m])

/-- Two machines whose related states stay related under valid messages, and which differ
in their answers on certain messages. -/
structure Lockstep (next : S → M → S) (answer : S → M → A) (next' : T → M → T)
    (answer' : T → M → A) (related : S → T → Prop) (valid : M → Prop)
    (differs : S → M → Prop) : Prop where
  keeps : ∀ {s t m}, related s t → valid m → related (next s m) (next' t m)
  agrees_iff : ∀ {s t m}, related s t → valid m → (answer s m = answer' t m ↔ ¬ differs s m)

variable {next : S → M → S} {answer : S → M → A} {next' : T → M → T} {answer' : T → M → A}
  {related : S → T → Prop} {valid : M → Prop} {differs : S → M → Prop}

/-- **When two machines answer alike.** -/
theorem Lockstep.run_eq_iff
    (h : Lockstep next answer next' answer' related valid differs) {s : S} {t : T}
    (hrelated : related s t) {ms : List M} (hvalid : ∀ m ∈ ms, valid m) :
    (run (answering next answer) s ms).2 = (run (answering next' answer') t ms).2 ↔
      ¬ Meets (answering next answer) differs s ms := by
  induction ms generalizing s t with
  | nil => exact iff_of_true rfl id
  | cons m ms ih =>
      rw [List.forall_mem_cons] at hvalid
      have hlater := ih (h.keeps hrelated hvalid.1) hvalid.2
      rw [Meets, not_or, ← h.agrees_iff hrelated hvalid.1]
      simp only [run, answering, List.singleton_append, List.cons.injEq] at hlater ⊢
      rw [hlater]

/-- A run on which machines never differ. -/
theorem not_meets_false (step : S → M → S × List A) (s : S) (ms : List M) :
    ¬ Meets step (fun _ _ => False) s ms := by
  induction ms generalizing s with
  | nil => exact id
  | cons m ms ih => exact not_or.mpr ⟨id, ih _⟩

end MessageMachine
