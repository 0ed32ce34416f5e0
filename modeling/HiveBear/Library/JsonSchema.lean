/-
# Schemas of JSON

A schema says what a value may be. Here it names a kind of value, lists constants, describes the
items of an array, or lists the properties of an object and which of them must be there. Other
fields than those of the list are allowed.

A value conforms to a schema or not, however it is written. How it is written is a matter of trees:
a tree may be laid out as a schema lists its properties, it may spell them as the schema does, and a
loose tree may fit a schema without being JSON. A strict tree that fits has a value that conforms,
and a tree of a value that conforms fits if it is laid out and spelled so.
-/

import HiveBear.Library.JsonWriter
import HiveBear.Library.PartialMaps
import Mathlib.Algebra.Ring.Int.Defs
import Mathlib.Data.List.Nodup

namespace JsonText

open PartialMaps

/-! ## Numbers -/

/-- The number that digits stand for. -/
def digitsValue (digits : List Char) : ℕ :=
  digits.foldl (fun n c => 10 * n + (c.toNat - '0'.toNat)) 0

/-- The digits of a number, without its point. -/
def Number.mantissa (number : Number) : ℤ :=
  let digits : ℤ := digitsValue (number.whole.text ++ number.fraction.elim [] Digits.text)
  if number.negative then -digits else digits

def Exponent.value (exponent : Exponent) : ℤ :=
  if exponent.sign = ['-'] then -digitsValue exponent.digits.text
  else digitsValue exponent.digits.text

/-- The power of ten that the digits are multiplied with. -/
def Number.scale (number : Number) : ℤ :=
  number.exponent.elim 0 Exponent.value - number.fraction.elim 0 fun digits => digits.text.length

/-- Two numbers are equal, however they are written. -/
def Number.Same (first second : Number) : Prop :=
  first.mantissa * 10 ^ (first.scale - second.scale).toNat =
    second.mantissa * 10 ^ (second.scale - first.scale).toNat

/-- A number has no fractional part, however it is written. -/
def Number.IsInteger (number : Number) : Prop :=
  (10 : ℤ) ^ (-number.scale).toNat ∣ number.mantissa

/-- A number is written with digits only. -/
def Number.IsPlain (number : Number) : Prop := number.fraction = none ∧ number.exponent = none

theorem Number.IsPlain.isInteger {number : Number} (h : number.IsPlain) : number.IsInteger := by
  have hscale : number.scale = 0 := by
    rw [Number.scale, h.1, h.2]
    rfl
  rw [Number.IsInteger, hscale]
  exact Int.one_dvd _

/-! ## Values -/

/-- The field of a name. Of two with one name the later one counts. -/
def Value.get (value : Value) (key : String) : Option Value :=
  match value with
  | .obj fields => fields.reverse.lookup key.toList
  | _ => none

/-- A field is smaller than the value that has it. -/
theorem Value.sizeOf_get {value field : Value} {key : String} (h : value.get key = some field) :
    sizeOf field < sizeOf value := by
  cases value with
  | null | bool | num | str | arr => cases h
  | obj fields =>
      obtain ⟨front, back, hfields, -⟩ := List.lookup_eq_some_iff.mp h
      have hmem : (key.toList, field) ∈ fields := by
        rw [← List.mem_reverse, hfields]
        exact List.mem_append_right _ List.mem_cons_self
      have hlt := List.sizeOf_lt_of_mem hmem
      rw [Prod.mk.sizeOf_spec] at hlt
      rw [Value.obj.sizeOf_spec]
      omega

/-- Neither an array nor an object. -/
def Value.IsScalar : Value → Prop
  | .null | .bool _ | .num _ | .str _ => True
  | .arr _ | .obj _ => False

/-- Two scalars are equal. -/
def Value.Same : Value → Value → Prop
  | .num first, .num second =>
      ∃ x y : Number, x.text = first ∧ y.text = second ∧ x.Same y
  | first, second => first = second

theorem Value.Same.refl {value : Value} (h : value.Sound) : value.Same value := by
  cases value with
  | num literal =>
      obtain ⟨number, -, htext⟩ := h
      exact ⟨number, number, htext, htext, rfl⟩
  | null | bool | str | arr | obj => exact rfl

/-! ## Schemas -/

mutual

/-- What a schema says of a value. -/
inductive Shape
  | string
  | number
  | integer
  | boolean
  | null
  | oneOf (constants : List Value)
  | array (items : Shape)
  | object (properties : Properties)

/-- The properties of an object, and whether they are required. -/
inductive Properties
  | nil
  | cons (name : List Char) (required : Bool) (shape : Shape) (more : Properties)

end

def Properties.names : Properties → List (List Char)
  | .nil => []
  | .cons name _ _ more => name :: more.names

mutual

/-- A value is as the schema says. -/
def Shape.Conforms : Shape → Value → Prop
  | .string, value => ∃ text, value = .str text
  | .number, value => ∃ literal, value = .num literal
  | .integer, value => ∃ number : Number, value = .num number.text ∧ number.IsInteger
  | .boolean, value => ∃ b, value = .bool b
  | .null, value => value = .null
  | .oneOf constants, value => ∃ constant ∈ constants, value.Same constant
  | .array items, value => ∃ values, value = .arr values ∧ ∀ item ∈ values, items.Conforms item
  | .object properties, value => ∃ fields, value = .obj fields ∧ properties.Conforms fields

def Properties.Conforms : Properties → List (List Char × Value) → Prop
  | .nil, _ => True
  | .cons name required shape more, fields =>
      (∀ value, (name, value) ∈ fields → shape.Conforms value) ∧
        (required = true → name ∈ fields.map Prod.fst) ∧ more.Conforms fields

end

mutual

/-- The constants of a schema are values of JSON. The names of the properties of an object differ,
and are written in JSON as they are. -/
def Shape.Proper : Shape → Prop
  | .string | .number | .integer | .boolean | .null => True
  | .oneOf constants => ∀ constant ∈ constants, constant.Sound
  | .array items => items.Proper
  | .object properties => properties.Proper

def Properties.Proper : Properties → Prop
  | .nil => True
  | .cons name _ shape more =>
      (Plain name ∧ Printed name) ∧ name ∉ more.names ∧ shape.Proper ∧ more.Proper

end

/-! ### Schemas as they are written -/

/-- The schema of a kind of values that needs no other field. -/
def simpleShape (type : Value) : Option Shape :=
  match type with
  | .str text =>
      if text = "string".toList then some .string
      else if text = "number".toList then some .number
      else if text = "integer".toList then some .integer
      else if text = "boolean".toList then some .boolean
      else if text = "null".toList then some .null
      else none
  | _ => none

/-- A schema gives the type, and no constants. -/
structure Value.Typed (schema type : Value) : Prop where
  type : schema.get "type" = some type
  enum : schema.get "enum" = none
  const : schema.get "const" = none

/-- The constants of a schema are scalars, of its type if it gives one. -/
structure Value.Lists (schema : Value) (constants : List Value) : Prop where
  scalar : ∀ constant ∈ constants, constant.IsScalar
  type : ∀ type, schema.get "type" = some type →
    ∃ shape, simpleShape type = some shape ∧ ∀ constant ∈ constants, shape.Conforms constant

/-- The names of the properties that must be there are those that a schema gives. -/
def Value.Requires (schema : Value) (required : List (List Char)) : Prop :=
  (schema.get "required" = none ∧ required = []) ∨
    schema.get "required" = some (.arr (required.map .str))

mutual

/-- A value is a schema. -/
inductive HasShape : Value → Shape → Prop
  | simple {schema type : Value} {shape : Shape} (htype : schema.Typed type)
      (hsimple : simpleShape type = some shape) : HasShape schema shape
  | enum {schema : Value} {constants : List Value}
      (henum : schema.get "enum" = some (.arr constants)) (hconst : schema.get "const" = none)
      (hlists : schema.Lists constants) : HasShape schema (.oneOf constants)
  | const {schema constant : Value} (henum : schema.get "enum" = none)
      (hconst : schema.get "const" = some constant) (hlists : schema.Lists [constant]) :
      HasShape schema (.oneOf [constant])
  | array {schema items : Value} {shape : Shape} (htype : schema.Typed (.str "array".toList))
      (hitems : schema.get "items" = some items) (hshape : HasShape items shape) :
      HasShape schema (.array shape)
  | object {schema : Value} {fields : List (List Char × Value)} {required : List (List Char)}
      {properties : Properties} (htype : schema.Typed (.str "object".toList))
      (hproperties : schema.get "properties" = some (.obj fields))
      (hrequired : schema.Requires required)
      (hthere : ∀ name ∈ required, name ∈ fields.map Prod.fst)
      (hshapes : HaveShapes required fields properties) : HasShape schema (.object properties)

inductive HaveShapes : List (List Char) → List (List Char × Value) → Properties → Prop
  | nil {required : List (List Char)} : HaveShapes required [] .nil
  | cons {required : List (List Char)} {name : List Char} {schema : Value} {shape : Shape}
      {fields : List (List Char × Value)} {more : Properties} (hshape : HasShape schema shape)
      (hmore : HaveShapes required fields more) :
      HaveShapes required ((name, schema) :: fields)
        (.cons name (decide (name ∈ required)) shape more)

end

/-! ## Trees -/

/-- The items of an array, without the white space. -/
def Items.trees : Items → List Tree
  | .nil => []
  | .cons _ item _ more => item :: more.trees

/-- Items of some kind, with white space in front of them and behind the last one. -/
def Items.Spread (kind : Tree → Prop) (items : Items) : Prop :=
  items = .nil ∨ ∃ before first more last, items = .laid before first more last ∧ kind first ∧
    ∀ item ∈ more, kind item.2

/-- A key is written as it is. -/
def KeyIs (key : List Letter) (name : List Char) : Prop := key.flatMap Letter.text = name

mutual

/-- A tree, loose or not, is written as the schema says. -/
def Shape.Fits : Shape → Tree → Prop
  | .string, tree => ∃ letters, tree = .str letters
  | .number, tree => ∃ number, tree = .num number
  | .integer, tree => ∃ number, tree = .num number ∧ number.IsPlain
  | .boolean, tree => ∃ b, tree = .bool b
  | .null, tree => tree = .null
  | .oneOf constants, tree => ∃ constant ∈ constants, tree.text = write constant
  | .array items, tree => ∃ space trees, tree = .arr space trees ∧ trees.Spread items.Fits
  | .object properties, tree =>
      ∃ space fields, tree = .obj space fields ∧ properties.Fits fields.entries

def Properties.Fits : Properties → List (List Letter × Tree) → Prop
  | .nil, entries => entries = []
  | .cons name required shape more, entries =>
      (required = false ∧ more.Fits entries) ∨ ∃ key tree rest, entries = (key, tree) :: rest ∧
        KeyIs key name ∧ shape.Fits tree ∧ more.Fits rest

end

mutual

/-- The objects of a tree list the properties of the schema in its order, and no others. There is no
white space behind the items of its arrays but the last ones. -/
def Shape.Laid : Shape → Tree → Prop
  | .string, _ | .number, _ | .integer, _ | .boolean, _ | .null, _ | .oneOf _, _ => True
  | .array items, tree => ∃ space trees, tree = .arr space trees ∧ trees.Spread items.Laid
  | .object properties, tree =>
      ∃ space fields, tree = .obj space fields ∧ properties.Laid fields.entries

def Properties.Laid : Properties → List (List Letter × Tree) → Prop
  | .nil, entries => entries = []
  | .cons name _ shape more, entries =>
      more.Laid entries ∨ ∃ key tree rest, entries = (key, tree) :: rest ∧
        unescape key = some name ∧ shape.Laid tree ∧ more.Laid rest

end

mutual

/-- A tree writes constants and the names of properties as the schema does, and integers with digits
only. -/
def Shape.Spelled : Shape → Tree → Prop
  | .string, _ | .number, _ | .boolean, _ | .null, _ => True
  | .integer, tree => ∀ number, tree = .num number → number.IsPlain
  | .oneOf constants, tree => ∃ constant ∈ constants, tree.text = write constant
  | .array items, tree =>
      ∀ space trees, tree = .arr space trees → ∀ t ∈ trees.trees, items.Spelled t
  | .object properties, tree =>
      ∀ space fields, tree = .obj space fields → properties.Spelled fields.entries

def Properties.Spelled : Properties → List (List Letter × Tree) → Prop
  | .nil, _ => True
  | .cons name _ shape more, entries =>
      (∀ entry ∈ entries, unescape entry.1 = some name →
        KeyIs entry.1 name ∧ shape.Spelled entry.2) ∧ more.Spelled entries

end

/-! ### Trees and their values -/

theorem Items.values_eq : (items : Items) → items.values = items.trees.mapM Tree.value
  | .nil => rfl
  | .cons before item after more => by
      rw [Items.values, Items.trees, List.mapM_cons, ← more.values_eq]
      cases item.value with
      | none => rfl
      | some value => cases more.values <;> rfl

theorem Items.trees_laid (before : Space) (first : Tree) (more : List (Space × Tree))
    (last : Space) : (Items.laid before first more last).trees = first :: more.map Prod.snd := by
  induction more generalizing before first with
  | nil => rfl
  | cons next more ih => rw [Items.laid, Items.trees, ih, List.map_cons]

theorem Items.Spread.forall {kind : Tree → Prop} {items : Items} (h : items.Spread kind) :
    ∀ tree ∈ items.trees, kind tree := by
  rcases h with rfl | ⟨before, first, more, last, rfl, hfirst, hmore⟩
  · exact List.forall_mem_nil _
  · rw [Items.trees_laid]
    exact List.forall_mem_cons.mpr ⟨hfirst, List.forall_mem_map.mpr hmore⟩

theorem Items.Spread.imp {kind kind' : Tree → Prop} {items : Items} (h : items.Spread kind)
    (himp : ∀ tree ∈ items.trees, kind tree → kind' tree) : items.Spread kind' := by
  rcases h with rfl | ⟨before, first, more, last, rfl, hfirst, hmore⟩
  · exact Or.inl rfl
  · rw [Items.trees_laid, List.forall_mem_cons, List.forall_mem_map] at himp
    exact Or.inr ⟨before, first, more, last, rfl, himp.1 hfirst,
      fun item hitem => himp.2 item hitem (hmore item hitem)⟩

/-- A tree has a value just if its text is read as the value. -/
theorem Tree.fromStr_text (tree : Tree) : fromStr tree.text = tree.value := by
  have htext := JsonText.fromStr_text .none tree .none
  rwa [Space.none, List.nil_append, List.append_nil] at htext

/-- What is written like a constant has it as its value. -/
theorem Tree.value_of_text {tree : Tree} {constant : Value} (hsound : constant.Sound)
    (h : tree.text = write constant) : tree.value = some constant := by
  rw [← tree.fromStr_text, h, fromStr_write hsound]

theorem Tree.exists_arr {tree : Tree} {values : List Value} (h : tree.value = some (.arr values)) :
    ∃ space trees, tree = .arr space trees ∧
      List.Forall₂ (fun tree value => tree.value = some value) trees.trees values := by
  cases tree with
  | arr space trees =>
      obtain ⟨found, hfound, hsame⟩ := Option.map_eq_some_iff.mp h
      cases hsame
      exact ⟨space, trees, rfl, mapM_eq_some_iff.mp (trees.values_eq ▸ hfound)⟩
  | _ => simp_all [Tree.value]

theorem Tree.value_num {number : Number} {value : Value}
    (h : (Tree.num number).value = some value) : .num number.text = value := by
  rw [Tree.value] at h
  split_ifs at h
  exact Option.some.inj h

theorem Tree.exists_num {tree : Tree} {literal : List Char}
    (h : tree.value = some (.num literal)) : ∃ number, tree = .num number := by
  cases tree with
  | num number => exact ⟨number, rfl⟩
  | _ => simp_all [Tree.value]

theorem Tree.exists_str {tree : Tree} {text : List Char} (h : tree.value = some (.str text)) :
    ∃ letters, tree = .str letters := by
  cases tree with
  | str letters => exact ⟨letters, rfl⟩
  | _ => simp_all [Tree.value]

theorem Tree.eq_bool {tree : Tree} {b : Bool} (h : tree.value = some (.bool b)) :
    tree = .bool b := by
  cases tree with
  | bool => simp_all [Tree.value]
  | _ => simp_all [Tree.value]

theorem Tree.eq_null {tree : Tree} (h : tree.value = some .null) : tree = .null := by
  cases tree with
  | null => rfl
  | _ => simp_all [Tree.value]

/-- The value of a field, and its name. -/
def Holds (entry : List Letter × Tree) (field : List Char × Value) : Prop :=
  unescape entry.1 = some field.1 ∧ entry.2.value = some field.2

theorem Tree.exists_obj {tree : Tree} {fields : List (List Char × Value)}
    (h : tree.value = some (.obj fields)) :
    ∃ space written, tree = .obj space written ∧ List.Forall₂ Holds written.entries fields := by
  cases tree with
  | obj space written =>
      obtain ⟨found, hfound, hsame⟩ := Option.map_eq_some_iff.mp h
      cases hsame
      rw [Fields.values_eq] at hfound
      refine ⟨space, written, rfl, (mapM_eq_some_iff.mp hfound).imp ?_⟩
      intro entry field hentry
      obtain ⟨key, hkey, hvalue⟩ := Option.bind_eq_some_iff.mp hentry
      obtain ⟨value, hfound, rfl⟩ := Option.map_eq_some_iff.mp hvalue
      exact ⟨hkey, hfound⟩
  | _ => simp_all [Tree.value]

/-- A key that is written as a plain name stands for it. -/
theorem KeyIs.eq_plainLetters {key : List Letter} {name : List Char} (h : KeyIs key name)
    (hplain : Plain name) : key = plainLetters name hplain := by
  induction key generalizing name with
  | nil =>
      cases h
      rfl
  | cons letter key ih =>
      rw [KeyIs, List.flatMap_cons] at h
      subst h
      cases letter with
      | plain c hc =>
          have hmore : Plain (key.flatMap Letter.text) :=
            fun d hd => hplain d (List.mem_append_right _ hd)
          exact congrArg (Letter.plain c hc :: ·) (ih rfl hmore)
      | escaped c => exact absurd rfl (hplain '\\' List.mem_cons_self).2

theorem KeyIs.unescape {key : List Letter} {name : List Char} (h : KeyIs key name)
    (hname : Plain name ∧ Printed name) : unescape key = some name := by
  rw [h.eq_plainLetters hname.1, unescape_plainLetters, if_pos hname.2]

/-! ### Properties -/

/-- What is laid out has no other names. -/
theorem Properties.Laid.names {properties : Properties} {entries : List (List Letter × Tree)}
    (h : properties.Laid entries) :
    ∀ entry ∈ entries, ∃ name ∈ properties.names, unescape entry.1 = some name := by
  cases properties with
  | nil =>
      cases h
      exact List.forall_mem_nil _
  | cons name required shape more =>
      rcases h with h | ⟨key, tree, rest, rfl, hkey, -, hmore⟩
      · intro entry hentry
        obtain ⟨found, hfound, hname⟩ := Properties.Laid.names h entry hentry
        exact ⟨found, List.mem_cons_of_mem _ hfound, hname⟩
      · refine List.forall_mem_cons.mpr ⟨⟨name, List.mem_cons_self, hkey⟩, ?_⟩
        intro entry hentry
        obtain ⟨found, hfound, hname⟩ := Properties.Laid.names hmore entry hentry
        exact ⟨found, List.mem_cons_of_mem _ hfound, hname⟩

section

variable {name : List Char} {key : List Letter} {tree : Tree} {value : Value}
  {entries : List (List Letter × Tree)} {fields : List (List Char × Value)}

/-- The fields of what is laid out have no other names. -/
theorem Properties.Laid.notMem {properties : Properties} (h : properties.Laid entries)
    (hholds : List.Forall₂ Holds entries fields) (hname : name ∉ properties.names) :
    name ∉ fields.map Prod.fst := by
  intro hmem
  obtain ⟨field, hfield, rfl⟩ := List.mem_map.mp hmem
  obtain ⟨entry, hentry, hkey, -⟩ := exists_of_forall₂ hholds hfield
  obtain ⟨found, hfound, hunescape⟩ := h.names entry hentry
  rw [hkey] at hunescape
  cases hunescape
  exact hname hfound

/-- A field of another name makes no difference. -/
theorem Properties.conforms_cons {properties : Properties} (h : name ∉ properties.names) :
    properties.Conforms ((name, value) :: fields) ↔ properties.Conforms fields := by
  cases properties with
  | nil => exact Iff.rfl
  | cons other required shape more =>
      obtain ⟨hother, hmore⟩ := not_or.mp (mt List.mem_cons.mpr h)
      rw [Properties.Conforms, Properties.Conforms, conforms_cons hmore]
      simp [Ne.symm hother]

theorem Properties.spelled_cons {properties : Properties} (h : name ∉ properties.names)
    (hkey : unescape key = some name) :
    properties.Spelled ((key, tree) :: entries) ↔ properties.Spelled entries := by
  cases properties with
  | nil => exact Iff.rfl
  | cons other required shape more =>
      obtain ⟨hother, hmore⟩ := not_or.mp (mt List.mem_cons.mpr h)
      rw [Properties.Spelled, Properties.Spelled, spelled_cons hmore hkey]
      simp [hkey, hother]

end

/-! ### What fits -/

mutual

/-- What fits is laid out. -/
theorem Shape.Fits.laid {shape : Shape} {tree : Tree} (hproper : shape.Proper)
    (h : shape.Fits tree) : shape.Laid tree := by
  cases shape with
  | array items =>
      obtain ⟨space, trees, rfl, htrees⟩ := h
      exact ⟨space, trees, rfl, htrees.imp fun tree _ htree => Shape.Fits.laid hproper htree⟩
  | object properties =>
      obtain ⟨space, fields, rfl, hfields⟩ := h
      exact ⟨space, fields, rfl, Properties.Fits.laid hproper hfields⟩
  | _ => trivial

theorem Properties.Fits.laid {properties : Properties} {entries : List (List Letter × Tree)}
    (hproper : properties.Proper) (h : properties.Fits entries) : properties.Laid entries := by
  cases properties with
  | nil => exact h
  | cons name required shape more =>
      obtain ⟨hname, -, hshape, hmore⟩ := hproper
      rcases h with ⟨-, h⟩ | ⟨key, tree, rest, rfl, hkey, htree, hrest⟩
      · exact Or.inl (Properties.Fits.laid hmore h)
      · exact Or.inr ⟨key, tree, rest, rfl, hkey.unescape hname, Shape.Fits.laid hshape htree,
          Properties.Fits.laid hmore hrest⟩

end

mutual

/-- What fits is spelled so. -/
theorem Shape.Fits.spelled {shape : Shape} {tree : Tree} (hproper : shape.Proper)
    (h : shape.Fits tree) : shape.Spelled tree := by
  cases shape with
  | integer =>
      obtain ⟨number, rfl, hplain⟩ := h
      intro other hother
      cases hother
      exact hplain
  | oneOf constants => exact h
  | array items =>
      obtain ⟨space, trees, rfl, htrees⟩ := h
      intro _ _ hsame
      cases hsame
      exact fun tree htree => Shape.Fits.spelled hproper (htrees.forall tree htree)
  | object properties =>
      obtain ⟨space, fields, rfl, hfields⟩ := h
      intro _ _ hsame
      cases hsame
      exact Properties.Fits.spelled hproper hfields
  | _ => trivial

theorem Properties.Fits.spelled {properties : Properties} {entries : List (List Letter × Tree)}
    (hproper : properties.Proper) (h : properties.Fits entries) : properties.Spelled entries := by
  cases properties with
  | nil => trivial
  | cons name required shape more =>
      obtain ⟨hname, hnew, hshape, hmore⟩ := hproper
      have hothers {rest : List (List Letter × Tree)} (hrest : more.Fits rest) :
          ∀ entry ∈ rest, unescape entry.1 = some name → KeyIs entry.1 name ∧
            shape.Spelled entry.2 := by
        intro entry hentry hkey
        obtain ⟨found, hfound, hunescape⟩ := (hrest.laid hmore).names entry hentry
        rw [hkey] at hunescape
        cases hunescape
        exact absurd hfound hnew
      rcases h with ⟨-, h⟩ | ⟨key, tree, rest, rfl, hkey, htree, hrest⟩
      · exact ⟨hothers h, Properties.Fits.spelled hmore h⟩
      · exact ⟨List.forall_mem_cons.mpr
            ⟨fun _ => ⟨hkey, Shape.Fits.spelled hshape htree⟩, hothers hrest⟩,
          (Properties.spelled_cons hnew (hkey.unescape hname)).mpr
            (Properties.Fits.spelled hmore hrest)⟩

end

mutual

/-- **The value of a tree that fits conforms.** -/
theorem Shape.Fits.conforms {shape : Shape} {tree : Tree} {value : Value} (hproper : shape.Proper)
    (h : shape.Fits tree) (hvalue : tree.value = some value) : shape.Conforms value := by
  cases shape with
  | string =>
      obtain ⟨letters, rfl⟩ := h
      obtain ⟨text, -, rfl⟩ := Option.map_eq_some_iff.mp hvalue
      exact ⟨text, rfl⟩
  | number =>
      obtain ⟨number, rfl⟩ := h
      exact ⟨number.text, (Tree.value_num hvalue).symm⟩
  | integer =>
      obtain ⟨number, rfl, hplain⟩ := h
      exact ⟨number, (Tree.value_num hvalue).symm, hplain.isInteger⟩
  | boolean =>
      obtain ⟨b, rfl⟩ := h
      exact ⟨b, (Option.some.inj hvalue).symm⟩
  | null =>
      cases h
      exact (Option.some.inj hvalue).symm
  | oneOf constants =>
      obtain ⟨constant, hconstant, htext⟩ := h
      have hsound := hproper constant hconstant
      rw [Tree.value_of_text hsound htext] at hvalue
      rw [← Option.some.inj hvalue]
      exact ⟨constant, hconstant, .refl hsound⟩
  | array items =>
      obtain ⟨space, trees, rfl, htrees⟩ := h
      obtain ⟨values, hvalues, rfl⟩ := Option.map_eq_some_iff.mp hvalue
      rw [Items.values_eq] at hvalues
      refine ⟨values, rfl, fun item hitem => ?_⟩
      obtain ⟨tree, htree, hitem⟩ := exists_of_mem_results hvalues hitem
      exact Shape.Fits.conforms hproper (htrees.forall tree htree) hitem
  | object properties =>
      obtain ⟨space, written, rfl, hwritten⟩ := h
      obtain ⟨fields, hfields, rfl⟩ := Option.map_eq_some_iff.mp hvalue
      obtain ⟨_, _, hsame, hholds⟩ := Tree.exists_obj hvalue
      cases hsame
      exact ⟨fields, rfl, Properties.Fits.conforms hproper hwritten hholds⟩

theorem Properties.Fits.conforms {properties : Properties} {entries : List (List Letter × Tree)}
    {fields : List (List Char × Value)} (hproper : properties.Proper)
    (h : properties.Fits entries) (hholds : List.Forall₂ Holds entries fields) :
    properties.Conforms fields := by
  cases properties with
  | nil => trivial
  | cons name required shape more =>
      obtain ⟨hname, hnew, hshape, hmore⟩ := hproper
      rcases h with ⟨rfl, h⟩ | ⟨key, tree, rest, rfl, hkey, htree, hrest⟩
      · have hnone := (h.laid hmore).notMem hholds hnew
        exact ⟨fun value hvalue => absurd (List.mem_map_of_mem hvalue) hnone, by simp,
          Properties.Fits.conforms hmore h hholds⟩
      · obtain ⟨⟨found, value⟩, others, ⟨hfound, hvalue⟩, hothers, rfl⟩ :=
          List.forall₂_cons_left_iff.mp hholds
        have hnone := (hrest.laid hmore).notMem hothers hnew
        dsimp only at hfound hvalue
        rw [hkey.unescape hname] at hfound
        cases hfound
        refine ⟨?_, fun _ => List.mem_cons_self, (Properties.conforms_cons hnew).mpr
          (Properties.Fits.conforms hmore hrest hothers)⟩
        intro other hother
        rcases List.mem_cons.mp hother with hsame | hother
        · cases hsame
          exact Shape.Fits.conforms hshape htree hvalue
        · exact absurd (List.mem_map_of_mem hother) hnone

end

mutual

/-- **The tree of a value that conforms fits**, if it is laid out and spelled so. -/
theorem Shape.Conforms.fits {shape : Shape} {tree : Tree} {value : Value} (hproper : shape.Proper)
    (h : shape.Conforms value) (hvalue : tree.value = some value) (hlaid : shape.Laid tree)
    (hspelled : shape.Spelled tree) : shape.Fits tree := by
  cases shape with
  | string =>
      obtain ⟨text, rfl⟩ := h
      exact Tree.exists_str hvalue
  | number =>
      obtain ⟨literal, rfl⟩ := h
      obtain ⟨number, rfl⟩ := Tree.exists_num hvalue
      exact ⟨number, rfl⟩
  | integer =>
      obtain ⟨number, rfl, -⟩ := h
      obtain ⟨written, rfl⟩ := Tree.exists_num hvalue
      exact ⟨written, rfl, hspelled written rfl⟩
  | boolean =>
      obtain ⟨b, rfl⟩ := h
      exact ⟨b, Tree.eq_bool hvalue⟩
  | null =>
      cases h
      exact Tree.eq_null hvalue
  | oneOf constants => exact hspelled
  | array items =>
      obtain ⟨values, rfl, hvalues⟩ := h
      obtain ⟨space, trees, rfl, htrees⟩ := hlaid
      obtain ⟨_, _, hsame, hholds⟩ := Tree.exists_arr hvalue
      cases hsame
      refine ⟨space, trees, rfl, htrees.imp fun tree htree hlaid => ?_⟩
      obtain ⟨value, hvalue, htree'⟩ := exists_of_forall₂ hholds.flip htree
      exact Shape.Conforms.fits hproper (hvalues value hvalue) htree' hlaid
        (hspelled space trees rfl tree htree)
  | object properties =>
      obtain ⟨fields, rfl, hfields⟩ := h
      obtain ⟨space, written, rfl, hwritten⟩ := hlaid
      obtain ⟨_, _, hsame, hholds⟩ := Tree.exists_obj hvalue
      cases hsame
      exact ⟨space, written, rfl, Properties.Conforms.fits hproper hfields hholds hwritten
        (hspelled space written rfl)⟩

theorem Properties.Conforms.fits {properties : Properties} {entries : List (List Letter × Tree)}
    {fields : List (List Char × Value)} (hproper : properties.Proper)
    (h : properties.Conforms fields) (hholds : List.Forall₂ Holds entries fields)
    (hlaid : properties.Laid entries) (hspelled : properties.Spelled entries) :
    properties.Fits entries := by
  cases properties with
  | nil => exact hlaid
  | cons name required shape more =>
      obtain ⟨hname, hnew, hshape, hmore⟩ := hproper
      obtain ⟨hconforms, hrequired, hothers⟩ := h
      rcases hlaid with hlaid | ⟨key, tree, rest, rfl, hkey, htree, hrest⟩
      · refine Or.inl ⟨?_, Properties.Conforms.fits hmore hothers hholds hlaid hspelled.2⟩
        rw [Bool.eq_false_iff]
        exact fun hthere => absurd (hrequired hthere) (hlaid.notMem hholds hnew)
      · obtain ⟨⟨found, value⟩, others, ⟨hfound, hvalue⟩, hholdsRest, rfl⟩ :=
          List.forall₂_cons_left_iff.mp hholds
        dsimp only at hfound hvalue
        rw [hkey] at hfound
        cases hfound
        obtain ⟨hspell, hspelled⟩ := hspelled
        obtain ⟨hkeyIs, hspelledTree⟩ := hspell (key, tree) List.mem_cons_self hkey
        exact Or.inr ⟨key, tree, rest, rfl, hkeyIs,
          Shape.Conforms.fits hshape (hconforms value List.mem_cons_self) hvalue htree
            hspelledTree,
          Properties.Conforms.fits hmore ((Properties.conforms_cons hnew).mp hothers)
            hholdsRest hrest
            ((Properties.spelled_cons hnew hkey).mp hspelled)⟩

end

end JsonText
