/-
# JSON values and their codecs

A value is written as a JSON value, or not at all; and a reader may refuse what it is given.
`Codec.ReadsBack c a` says that `a` can be written and that what is written is read as `a`
again. It is a property of the value, not a law of the codec: some values do not read back. A
float that is not finite is written as `null`, the text of a float may be read as a
neighbouring one, and a map whose keys are not texts cannot be written unless it is empty.

For each way of building a codec a lemma says exactly when a value reads back.

A JSON value stands for its text. What is below that (white space, escapes, the order of
digits) is up to the printer and the parser, which fit together; only floats do not, and for
them the text is a parameter.
-/

import HiveBear.Library.Entries
import Mathlib.Algebra.Group.Int.Defs
import Mathlib.Algebra.Group.Nat.Defs
import Mathlib.Data.List.Basic

namespace Json

/-- A JSON value, with its numbers as a reader finds them: integers, or floats. -/
inductive Value (F : Type)
  | null
  | bool (b : Bool)
  | int (n : ℤ)
  | float (x : F)
  | str (text : String)
  | arr (items : List (Value F))
  | obj (fields : List (String × Value F))

/-- How floats are written and read. -/
structure Floats (F : Type) where
  isFinite : F → Bool
  /-- The float that the text of a finite float is read as. -/
  reread : F → F
  ofInt : ℤ → F

/-- The float reads back. -/
def Floats.Kept {F : Type} (floats : Floats F) (x : F) : Prop :=
  floats.isFinite x = true ∧ floats.reread x = x

/-- A writer, which may fail, and a reader. -/
structure Codec (F α : Type) where
  write : α → Option (Value F)
  read : Value F → Option α

namespace Codec

variable {F α β : Type}

/-- The value is written, and read as what it was. -/
def ReadsBack (c : Codec F α) (a : α) : Prop := (c.write a).bind c.read = some a

theorem readsBack_iff {c : Codec F α} {a : α} :
    c.ReadsBack a ↔ ∃ value, c.write a = some value ∧ c.read value = some a :=
  Option.bind_eq_some_iff

/-! ## Plain values -/

def bool : Codec F Bool where
  write b := some (.bool b)
  read
    | .bool b => some b
    | _ => none

def string : Codec F String where
  write text := some (.str text)
  read
    | .str text => some text
    | _ => none

/-- An unsigned number of 64 bits. -/
def uint64 : Codec F UInt64 where
  write n := some (.int n.toNat)
  read
    | .int n => if 0 ≤ n ∧ n < 2 ^ 64 then some (UInt64.ofNat n.toNat) else none
    | _ => none

/-- A float. An integer is read as one, too. -/
def float (floats : Floats F) : Codec F F where
  write x := some (if floats.isFinite x then .float x else .null)
  read
    | .float x => some (floats.reread x)
    | .int n => some (floats.ofInt n)
    | _ => none

theorem readsBack_bool (b : Bool) : (bool : Codec F Bool).ReadsBack b := rfl

theorem readsBack_string (text : String) : (string : Codec F String).ReadsBack text := rfl

theorem readsBack_uint64 (n : UInt64) : (uint64 : Codec F UInt64).ReadsBack n := by
  have hrange : (0 : ℤ) ≤ n.toNat ∧ (n.toNat : ℤ) < 2 ^ 64 := by
    have hlt := n.toNat_lt
    omega
  rw [ReadsBack, uint64, Option.bind_some]
  simp only
  rw [if_pos hrange, Int.toNat_natCast, UInt64.ofNat_toNat]

theorem readsBack_float (floats : Floats F) (x : F) :
    (float floats).ReadsBack x ↔ floats.Kept x := by
  rw [Floats.Kept, ReadsBack, float, Option.bind_some]
  by_cases hfinite : floats.isFinite x = true
  · rw [if_pos hfinite]
    simp [hfinite]
  · rw [if_neg hfinite]
    simp [hfinite]

/-! ## Building codecs -/

/-- Values that are written as values of another type. -/
def refine (c : Codec F α) (toRaw : β → α) (ofRaw : α → Option β) : Codec F β where
  write b := c.write (toRaw b)
  read value := (c.read value).bind ofRaw

/-- If a raw value stands for one value only, what reads back is what does so in its raw
form. -/
theorem readsBack_refine {c : Codec F α} {toRaw : β → α} {ofRaw : α → Option β}
    (hraw : ∀ a b, ofRaw a = some b ↔ a = toRaw b) (b : β) :
    (c.refine toRaw ofRaw).ReadsBack b ↔ c.ReadsBack (toRaw b) := by
  rw [readsBack_iff, readsBack_iff]
  apply exists_congr
  intro value
  apply and_congr_right
  intro _
  show (c.read value).bind ofRaw = some b ↔ _
  rw [Option.bind_eq_some_iff]
  constructor
  · rintro ⟨a, hread, hvalue⟩
    rw [hread, (hraw a b).mp hvalue]
  · intro hread
    exact ⟨_, hread, (hraw _ b).mpr rfl⟩

/-- An unsigned number of 32 bits. -/
def uint32 : Codec F UInt32 :=
  uint64.refine UInt32.toUInt64 fun n => if n.toNat < 2 ^ 32 then some n.toUInt32 else none

/-- A byte. -/
def uint8 : Codec F UInt8 :=
  uint64.refine UInt8.toUInt64 fun n => if n.toNat < 2 ^ 8 then some n.toUInt8 else none

theorem readsBack_uint32 (n : UInt32) : (uint32 : Codec F UInt32).ReadsBack n := by
  apply (readsBack_refine _ n).mpr (readsBack_uint64 _)
  intro wide narrow
  rw [← UInt64.toNat_inj, UInt32.toNat_toUInt64]
  constructor
  · intro h
    split at h
    · rename_i hfits
      cases h
      rw [UInt64.toNat_toUInt32, Nat.mod_eq_of_lt hfits]
    · cases h
  · intro h
    rw [if_pos (by rw [h]; exact narrow.toNat_lt)]
    congr 1
    rw [← UInt32.toNat_inj, UInt64.toNat_toUInt32, h, Nat.mod_eq_of_lt narrow.toNat_lt]

theorem readsBack_uint8 (n : UInt8) : (uint8 : Codec F UInt8).ReadsBack n := by
  apply (readsBack_refine _ n).mpr (readsBack_uint64 _)
  intro wide narrow
  rw [← UInt64.toNat_inj, UInt8.toNat_toUInt64]
  constructor
  · intro h
    split at h
    · rename_i hfits
      cases h
      rw [UInt64.toNat_toUInt8, Nat.mod_eq_of_lt hfits]
    · cases h
  · intro h
    rw [if_pos (by rw [h]; exact narrow.toNat_lt)]
    congr 1
    rw [← UInt8.toNat_inj, UInt64.toNat_toUInt8, h, Nat.mod_eq_of_lt narrow.toNat_lt]

/-- A value that need not be there. -/
def option (c : Codec F α) : Codec F (Option α) where
  write
    | none => some .null
    | some a => c.write a
  read
    | .null => some none
    | value => (c.read value).map some

/-- A value that is there reads back if it does so by itself, as `null` is not one. -/
theorem readsBack_option {c : Codec F α} (hnull : c.read .null = none) (value : Option α) :
    c.option.ReadsBack value ↔ ∀ a, value = some a → c.ReadsBack a := by
  cases value with
  | none =>
      constructor
      · intro _ a ha
        cases ha
      · intro _
        rfl
  | some a =>
      have hsome : c.option.ReadsBack (some a) ↔ c.ReadsBack a := by
        rw [readsBack_iff, readsBack_iff]
        apply exists_congr
        intro written
        apply and_congr_right
        intro _
        by_cases hwritten : written = .null
        · subst hwritten
          rw [hnull]
          constructor <;> intro h <;> cases h
        · have hread : c.option.read written = (c.read written).map some := by
            cases written <;> first | rfl | exact absurd rfl hwritten
          rw [hread, Option.map_eq_some_iff]
          constructor
          · rintro ⟨a', hvalue, hsame⟩
            cases hsame
            exact hvalue
          · intro hvalue
            exact ⟨a, hvalue, rfl⟩
      rw [hsome]
      constructor
      · intro h a' ha'
        cases ha'
        exact h
      · intro h
        exact h a rfl

/-- A sequence. -/
def seq (c : Codec F α) : Codec F (List α) where
  write items := (items.mapM c.write).map .arr
  read
    | .arr values => values.mapM c.read
    | _ => none

/-- What is written item by item and read item by item comes back if every item does. -/
theorem mapM_bind_mapM {write : α → Option β} {read : β → Option α} (items : List α) :
    (items.mapM write).bind (fun values => values.mapM read) = some items ↔
      ∀ a ∈ items, (write a).bind read = some a := by
  induction items with
  | nil => simp
  | cons a items ih =>
      rw [List.forall_mem_cons, ← ih, Option.bind_eq_some_iff]
      simp only [List.mapM_cons, Option.bind_eq_bind, Option.bind_eq_some_iff]
      constructor
      · rintro ⟨values, ⟨value, hwrite, others, hothers, hdone⟩, hread⟩
        cases hdone
        simp only [List.mapM_cons, Option.bind_eq_bind, Option.bind_eq_some_iff] at hread
        obtain ⟨a', ha', items', hitems', hsame⟩ := hread
        cases hsame
        exact ⟨⟨value, hwrite, ha'⟩, others, hothers, hitems'⟩
      · rintro ⟨⟨value, hwrite, hvalue⟩, others, hothers, hitems⟩
        refine ⟨value :: others, ⟨value, hwrite, others, hothers, rfl⟩, ?_⟩
        simp [hvalue, hitems]

theorem readsBack_seq (c : Codec F α) (items : List α) :
    c.seq.ReadsBack items ↔ ∀ a ∈ items, c.ReadsBack a := by
  rw [ReadsBack, seq, Option.bind_map]
  exact mapM_bind_mapM items

/-- An enumeration without payloads. -/
def unitEnum (variants : List α) (name : α → String) : Codec F α where
  write a := some (.str (name a))
  read
    | .str text => variants.find? fun a => name a = text
    | _ => none

theorem readsBack_unitEnum {variants : List α} {name : α → String}
    (hname : ∀ a, variants.find? (fun b => name b = name a) = some a) (a : α) :
    (unitEnum variants name : Codec F α).ReadsBack a := hname a

/-- A map with texts as its keys. -/
def textMap (c : Codec F α) : Codec F (AList fun _ : String => α) where
  write m := (m.pairs.mapM fun e => (c.write e.2).map (Prod.mk e.1)).map .obj
  read
    | .obj fields => (fields.mapM fun e => (c.read e.2).map (Prod.mk e.1)).map AList.ofPairs
    | _ => none

theorem readsBack_textMap {c : Codec F α} {m : AList fun _ : String => α}
    (h : ∀ e ∈ m.pairs, c.ReadsBack e.2) : c.textMap.ReadsBack m := by
  have hentries : (m.pairs.mapM fun e => (c.write e.2).map (Prod.mk e.1)).bind
      (fun fields => fields.mapM fun e => (c.read e.2).map (Prod.mk e.1)) = some m.pairs := by
    rw [mapM_bind_mapM]
    intro e he
    obtain ⟨value, hwrite, hread⟩ := readsBack_iff.mp (h e he)
    rw [hwrite, Option.map_some, Option.bind_some, hread]
    rfl
  obtain ⟨fields, hwrite, hread⟩ := Option.bind_eq_some_iff.mp hentries
  rw [readsBack_iff]
  refine ⟨.obj fields, ?_, ?_⟩
  · simp only [textMap]
    rw [hwrite, Option.map_some]
  · simp only [textMap]
    rw [hread, Option.map_some, AList.ofPairs_pairs]

/-- A map whose keys are written as something other than a text. A key like that is refused in
writing and in reading, so that only an empty map gets through. -/
def otherMap {K V : Type} : Codec F (AList fun _ : K => V) where
  write m := if m.entries = [] then some (.obj []) else none
  read
    | .obj [] => some ∅
    | _ => none

theorem readsBack_otherMap {K V : Type} (m : AList fun _ : K => V) :
    (otherMap : Codec F _).ReadsBack m ↔ m = ∅ := by
  constructor
  · intro h
    obtain ⟨value, hwrite, -⟩ := readsBack_iff.mp h
    simp only [otherMap] at hwrite
    split at hwrite
    · rename_i hempty
      exact AList.ext hempty
    · cases hwrite
  · rintro rfl
    rfl

end Codec

/-! ## Records -/

/-- Some fields of a record, with their names. What is read depends on these fields only. -/
structure Fields (F α : Type) where
  names : List String
  write : α → Option (List (String × Value F))
  read : List (String × Value F) → Option α
  keys_write : ∀ {a fields}, write a = some fields → fields.map Prod.fst = names
  read_congr : ∀ {fields fields'}, (∀ name ∈ names, fields.filter (fun f => f.1 = name) =
    fields'.filter (fun f => f.1 = name)) → read fields = read fields'

namespace Fields

variable {F α β : Type}

/-- The fields are written, and read as what they were. -/
def ReadsBack (fields : Fields F α) (a : α) : Prop := (fields.write a).bind fields.read = some a

theorem readsBack_iff {fields : Fields F α} {a : α} :
    fields.ReadsBack a ↔ ∃ written, fields.write a = some written ∧ fields.read written = some a :=
  Option.bind_eq_some_iff

/-- One field, and what it is taken for when it is missing. A field that occurs twice is
refused. -/
def field (name : String) (c : Codec F α) (missing : Option α) : Fields F α where
  names := [name]
  write a := (c.write a).map fun value => [(name, value)]
  read fields :=
    match fields.filter fun f => f.1 = name with
    | [] => missing
    | [f] => c.read f.2
    | _ => none
  keys_write {a fields} h := by
    obtain ⟨value, -, rfl⟩ := Option.map_eq_some_iff.mp h
    rfl
  read_congr {fields fields'} h := by rw [h name (List.mem_singleton.mpr rfl)]

theorem readsBack_field (name : String) (c : Codec F α) (missing : Option α) (a : α) :
    (field name c missing).ReadsBack a ↔ c.ReadsBack a := by
  rw [ReadsBack, Codec.ReadsBack, field, Option.bind_map]
  have hread : ∀ value : Value F,
      [(name, value)].filter (fun f => f.1 = name) = [(name, value)] := by
    intro value
    rw [List.filter_cons_of_pos (by rw [decide_eq_true_iff]), List.filter_nil]
  simp only [Function.comp_def, hread]

/-- Fields with other names do not matter. -/
theorem filter_append_left {fields others : List (String × Value F)} {name : String}
    (h : name ∉ others.map Prod.fst) :
    (fields ++ others).filter (fun f => f.1 = name) = fields.filter fun f => f.1 = name := by
  rw [List.filter_append, List.append_right_eq_self, List.filter_eq_nil_iff]
  intro f hf hname
  exact h (List.mem_map.mpr ⟨f, hf, of_decide_eq_true hname⟩)

theorem filter_append_right {fields others : List (String × Value F)} {name : String}
    (h : name ∉ fields.map Prod.fst) :
    (fields ++ others).filter (fun f => f.1 = name) = others.filter fun f => f.1 = name := by
  rw [List.filter_append, List.append_left_eq_self, List.filter_eq_nil_iff]
  intro f hf hname
  exact h (List.mem_map.mpr ⟨f, hf, of_decide_eq_true hname⟩)

/-- Fields behind fields. -/
def both (first : Fields F α) (second : Fields F β) : Fields F (α × β) where
  names := first.names ++ second.names
  write p := do
    let fields ← first.write p.1
    let others ← second.write p.2
    return fields ++ others
  read fields := do
    let a ← first.read fields
    let b ← second.read fields
    return (a, b)
  keys_write {p fields} h := by
    simp only [Option.bind_eq_bind, Option.bind_eq_some_iff] at h
    obtain ⟨written, hfirst, others, hsecond, hdone⟩ := h
    cases hdone
    rw [List.map_append, first.keys_write hfirst, second.keys_write hsecond]
  read_congr {fields fields'} h := by
    rw [first.read_congr fun name hname => h name (List.mem_append_left _ hname),
      second.read_congr fun name hname => h name (List.mem_append_right _ hname)]

/-- No name occurs on both sides. -/
def namesApart (first : Fields F α) (second : Fields F β) : Bool :=
  first.names.all fun name => !second.names.contains name

/-- Fields with different names read back together if each of them does. -/
theorem readsBack_both {first : Fields F α} {second : Fields F β}
    (happart : namesApart first second = true) (p : α × β) :
    (first.both second).ReadsBack p ↔ first.ReadsBack p.1 ∧ second.ReadsBack p.2 := by
  have hnames : ∀ name ∈ first.names, name ∉ second.names := by
    simpa [namesApart] using happart
  have hread : ∀ {fields others}, first.write p.1 = some fields → second.write p.2 = some others →
      first.read (fields ++ others) = first.read fields ∧
      second.read (fields ++ others) = second.read others := by
    intro fields others hfirst hsecond
    constructor
    · apply first.read_congr
      intro name hname
      apply filter_append_left
      rw [second.keys_write hsecond]
      exact hnames name hname
    · apply second.read_congr
      intro name hname
      apply filter_append_right
      rw [first.keys_write hfirst]
      exact fun hother => hnames name hother hname
  rw [readsBack_iff, readsBack_iff, readsBack_iff]
  simp only [both, Option.bind_eq_bind, Option.bind_eq_some_iff]
  constructor
  · rintro ⟨written, ⟨fields, hfirst, others, hsecond, hdone⟩, a, ha, b, hb, hpair⟩
    cases hdone
    cases hpair
    rw [(hread hfirst hsecond).1] at ha
    rw [(hread hfirst hsecond).2] at hb
    exact ⟨⟨fields, hfirst, ha⟩, others, hsecond, hb⟩
  · rintro ⟨⟨fields, hfirst, ha⟩, others, hsecond, hb⟩
    refine ⟨fields ++ others, ⟨fields, hfirst, others, hsecond, rfl⟩, p.1, ?_, p.2, ?_, rfl⟩
    · rw [(hread hfirst hsecond).1, ha]
    · rw [(hread hfirst hsecond).2, hb]

/-- A record with these fields. Other fields are ignored. -/
def object (fields : Fields F α) : Codec F α where
  write a := (fields.write a).map .obj
  read
    | .obj written => fields.read written
    | _ => none

theorem readsBack_object (fields : Fields F α) (a : α) :
    fields.object.ReadsBack a ↔ fields.ReadsBack a := by
  rw [ReadsBack, Codec.ReadsBack, object, Option.bind_map]
  rfl

end Fields

/-- What a file holds that is used to keep a JSON value. -/
inductive File (F : Type)
  | missing
  | malformed
  | holds (value : Value F)

/-- The files of a machine, by their paths. -/
abbrev Disk (F : Type) := String → File F

/-- The value in a file, if there is one. -/
def File.value {F : Type} : File F → Option (Value F)
  | .holds value => some value
  | _ => none

end Json
