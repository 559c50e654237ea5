import Mathlib
import StackScript.Bytecode.Constant

/-!
Equality of constants, and what a pool holds.

* `floatDatum`, `float_beq_iff`: floating-point equality is sameness of a datum, so it is symmetric
  and transitive, and a number is equal to itself unless it is not a number;
* `Constant.Alike`: one constant, or two equal ones;
* `ConstantPool.Holds`: an index of a pool has a constant that is like a given one;
* `ConstantPool.holds_place`, `ConstantPool.holds_merge`: constants that join a pool are held at
  their new indices;
* `ConstantPool.Holds.mono`: constants that join later move nothing;
* `ConstantPool.merge_place`: it makes no difference whether a constant joins a pool that is merged
  into another one, or joins that other one after the merge.
-/

namespace StackScript

open Float.Model (UnpackedFloat)

/-! ### Equality of numbers -/

/-- What floating-point equality compares: nothing for what is not a number, one datum for both
zeros. -/
def floatDatum (x : Float) : Option UnpackedFloat :=
  match x.toModel.unpack with
  | .notANumber => none
  | .zero _ => some (.zero .positive)
  | u => some u

theorem float_beq_iff (x y : Float) :
    (x == y) = true ↔ ∃ d, floatDatum x = some d ∧ floatDatum y = some d := by
  show (x.toModel.unpack.compare y.toModel.unpack == some .eq) = true ↔ _
  rw [beq_iff_eq, floatDatum, floatDatum]
  generalize x.toModel.unpack = u
  generalize y.toModel.unpack = v
  cases u with
  | notANumber => cases v <;> simp [UnpackedFloat.compare]
  | zero s =>
    cases v with
    | infinity t => cases t <;> simp [UnpackedFloat.compare]
    | notANumber => simp [UnpackedFloat.compare]
    | zero t => simp [UnpackedFloat.compare]
    | finite t n f hn => cases t <;> simp [UnpackedFloat.compare]
  | infinity s =>
    cases v with
    | infinity t => cases s <;> cases t <;> simp [UnpackedFloat.compare, compare]
    | notANumber => simp [UnpackedFloat.compare]
    | zero t => cases s <;> simp [UnpackedFloat.compare]
    | finite t n f hn => cases s <;> simp [UnpackedFloat.compare]
  | finite s m e hm =>
    cases v with
    | infinity t => cases s <;> cases t <;> simp [UnpackedFloat.compare]
    | notANumber => cases s <;> simp [UnpackedFloat.compare]
    | zero t => cases s <;> simp [UnpackedFloat.compare]
    | finite t n f hn =>
      have hswap : (e = f ∧ m = n) ↔ (f = e ∧ n = m) := by
        rw [eq_comm (a := e), eq_comm (a := m)]
      cases s <;> cases t <;>
        simp [UnpackedFloat.compare, Ordering.then_eq_eq, and_comm, hswap]

theorem float_beq_symm {x y : Float} (h : (x == y) = true) : (y == x) = true := by
  rw [float_beq_iff] at h ⊢
  obtain ⟨d, hx, hy⟩ := h
  exact ⟨d, hy, hx⟩

theorem float_beq_trans {x y z : Float} (hxy : (x == y) = true) (hyz : (y == z) = true) :
    (x == z) = true := by
  rw [float_beq_iff] at hxy hyz ⊢
  obtain ⟨d, hx, hy⟩ := hxy
  obtain ⟨d', hy', hz⟩ := hyz
  rw [hy, Option.some_inj] at hy'
  exact ⟨d, hx, hy' ▸ hz⟩

/-- A number is equal to itself. -/
theorem float_beq_self {x : Float} (h : x.isNaN = false) : (x == x) = true := by
  rw [float_beq_iff]
  replace h : x.toModel.unpack.isNaN = false := h
  revert h
  rw [floatDatum]
  cases x.toModel.unpack <;> simp [UnpackedFloat.isNaN]

/-- What is equal to a number is one. -/
theorem isNaN_of_float_beq {x y : Float} (h : (x == y) = true) : x.isNaN = false := by
  obtain ⟨u, hu, -⟩ := (float_beq_iff x y).mp h
  show x.toModel.unpack.isNaN = false
  rw [floatDatum] at hu
  cases hx : x.toModel.unpack <;> simp [hx, UnpackedFloat.isNaN] at hu ⊢

/-! ### Equality of constants -/

namespace Constant

theorem equals_symm {c d : Constant} (h : c.equals d = true) : d.equals c = true := by
  cases c <;> cases d <;> simp only [equals, decide_eq_true_eq, Bool.false_eq_true] at h ⊢
  · exact float_beq_symm h
  · exact h.symm

theorem equals_trans {b c d : Constant} (hbc : b.equals c = true) (hcd : c.equals d = true) :
    b.equals d = true := by
  cases b <;> cases c <;> simp only [equals, decide_eq_true_eq, Bool.false_eq_true] at hbc <;>
    cases d <;> simp only [equals, decide_eq_true_eq, Bool.false_eq_true] at hcd ⊢
  · exact float_beq_trans hbc hcd
  · exact hbc.trans hcd

/-- The datum that is not a number. -/
def IsNaN : Constant → Prop
  | number x => x.isNaN = true
  | _ => False

theorem equals_self {c : Constant} (h : ¬c.IsNaN) : c.equals c = true := by
  cases c with
  | number x => exact float_beq_self (Bool.eq_false_iff.mpr h)
  | string s => exact decide_eq_true rfl
  | none => rfl

/-- What is not a number is equal to nothing. -/
theorem not_isNaN_of_equals {c d : Constant} (h : c.equals d = true) : ¬c.IsNaN := by
  cases c with
  | number x =>
    cases d <;> simp only [equals, Bool.false_eq_true] at h
    exact Bool.eq_false_iff.mp (isNaN_of_float_beq h)
  | string s => exact id
  | none => exact id

/-- One constant, or two equal ones. -/
def Alike (c d : Constant) : Prop :=
  c = d ∨ c.equals d = true

theorem Alike.refl (c : Constant) : c.Alike c := Or.inl rfl

theorem Alike.symm {c d : Constant} (h : c.Alike d) : d.Alike c :=
  h.imp Eq.symm equals_symm

theorem Alike.trans {b c d : Constant} (hbc : b.Alike c) (hcd : c.Alike d) : b.Alike d := by
  rcases hbc with rfl | hbc
  · exact hcd
  · rcases hcd with rfl | hcd
    · exact Or.inr hbc
    · exact Or.inr (equals_trans hbc hcd)

/-- Constants that are like a number, a text or none are equal. -/
theorem Alike.equals {b c d : Constant} (hb : b.Alike c) (hd : d.Alike c) (hc : ¬c.IsNaN) :
    b.equals d = true := by
  rcases hb.trans hd.symm with rfl | h
  · rcases hb with rfl | h
    · exact equals_self hc
    · exact equals_trans h (equals_symm h)
  · exact h

end Constant

/-! ### Pools -/

namespace ConstantPool

/-- The constant at an index is like the given one. -/
def Holds (pool : ConstantPool) (index : Nat) (c : Constant) : Prop :=
  ∃ d, pool[index]? = some d ∧ d.Alike c

/-- Constants that join a pool move nothing. -/
theorem Holds.mono {pool more : ConstantPool} {index : Nat} {c : Constant}
    (h : Holds pool index c) (hp : pool <+: more) : Holds more index c := by
  obtain ⟨d, hd, hc⟩ := h
  obtain ⟨rest, rfl⟩ := hp
  exact ⟨d, by rw [List.getElem?_append_left (List.getElem?_eq_some_iff.mp hd).1, hd], hc⟩

theorem prefix_place (pool : ConstantPool) (c : Constant) : pool <+: (pool.place c).2 := by
  unfold place
  split
  · exact List.prefix_rfl
  · exact List.prefix_append pool [c]

/-- A constant that joins a pool is held at its index. -/
theorem holds_place (pool : ConstantPool) (c : Constant) :
    Holds (pool.place c).2 (pool.place c).1 c := by
  unfold place
  split
  · next i h =>
    obtain ⟨hi, heq, -⟩ := List.findIdx?_eq_some_iff_getElem.mp h
    exact ⟨pool[i], List.getElem?_eq_getElem hi, Or.inr heq⟩
  · exact ⟨c, by simp, Constant.Alike.refl c⟩

theorem lt_length_place (pool : ConstantPool) (c : Constant) :
    (pool.place c).1 < (pool.place c).2.length := by
  obtain ⟨d, hd, -⟩ := holds_place pool c
  exact (List.getElem?_eq_some_iff.mp hd).1

theorem merge_cons (pool : ConstantPool) (c : Constant) (cs : List Constant) :
    pool.merge (c :: cs)
      = ((pool.place c).1 :: ((pool.place c).2.merge cs).1, ((pool.place c).2.merge cs).2) := rfl

theorem prefix_merge (cs : List Constant) : ∀ pool : ConstantPool, pool <+: (pool.merge cs).2 := by
  induction cs with
  | nil => exact fun pool => List.prefix_rfl
  | cons c cs ih => exact fun pool => (prefix_place pool c).trans (ih _)

/-- Constants that join a pool one after the other are held at their indices. -/
theorem holds_merge (cs : List Constant) :
    ∀ (pool : ConstantPool) {k : Nat} {c : Constant}, cs[k]? = some c →
      ∃ i, (pool.merge cs).1[k]? = some i ∧ Holds (pool.merge cs).2 i c := by
  induction cs with
  | nil =>
    intro pool k c h
    simp at h
  | cons d ds ih =>
    intro pool k c h
    rw [merge_cons]
    rcases k with _ | k
    · rw [List.getElem?_cons_zero, Option.some_inj] at h
      subst h
      exact ⟨_, rfl, (holds_place pool d).mono (prefix_merge ds _)⟩
    · rw [List.getElem?_cons_succ] at h
      obtain ⟨i, hi, hc⟩ := ih (pool.place d).2 h
      exact ⟨i, by rw [List.getElem?_cons_succ, hi], hc⟩

/-! ### Equal constants have one index -/

theorem findIdx?_equals_congr {c d : Constant} (hcd : c.equals d = true) (pool : ConstantPool) :
    pool.findIdx? (·.equals c) = pool.findIdx? (·.equals d) := by
  have hsame : ∀ e : Constant, e.equals c = e.equals d := fun e =>
    Bool.eq_iff_iff.mpr ⟨fun h => Constant.equals_trans h hcd,
      fun h => Constant.equals_trans h (Constant.equals_symm hcd)⟩
  simp only [hsame]

/-- The index that a constant is given is that of the first entry equal to it. -/
theorem findIdx?_place {c : Constant} (hc : c.equals c = true) (pool : ConstantPool) :
    (pool.place c).2.findIdx? (·.equals c) = some (pool.place c).1 := by
  unfold place
  split
  · next i h => exact h
  · next h => simp [List.findIdx?_append, h, List.findIdx?_singleton, hc]

/-- An equal constant that joins the pool later is given the same index, and nothing is added. -/
theorem place_of_place {pool more : ConstantPool} {c d : Constant} (hcd : c.equals d = true)
    (hp : (pool.place c).2 <+: more) : more.place d = ((pool.place c).1, more) := by
  have hc : c.equals c = true := Constant.equals_trans hcd (Constant.equals_symm hcd)
  have hfirst : more.findIdx? (·.equals c) = some (pool.place c).1 := by
    obtain ⟨rest, rfl⟩ := hp
    rw [List.findIdx?_append, findIdx?_place hc, Option.some_or]
  rw [findIdx?_equals_congr hcd] at hfirst
  rw [place, hfirst]

/-! ### Pools that join a pool -/

theorem merge_append (cs ds : List Constant) : ∀ pool : ConstantPool,
    pool.merge (cs ++ ds)
      = ((pool.merge cs).1 ++ ((pool.merge cs).2.merge ds).1, ((pool.merge cs).2.merge ds).2) := by
  induction cs with
  | nil => exact fun pool => rfl
  | cons c cs ih =>
    intro pool
    rw [List.cons_append, merge_cons, ih, merge_cons]
    rfl

theorem length_merge (cs : List Constant) : ∀ pool : ConstantPool,
    (pool.merge cs).1.length = cs.length := by
  induction cs with
  | nil => exact fun pool => rfl
  | cons c cs ih =>
    intro pool
    rw [merge_cons, List.length_cons, ih, List.length_cons]

/-- Constants that are added to a pool before it is merged do not change the indices of the others.
-/
theorem prefix_indices_merge {cs ds : List Constant} (h : cs <+: ds) (pool : ConstantPool) :
    (pool.merge cs).1 <+: (pool.merge ds).1 := by
  obtain ⟨rest, rfl⟩ := h
  rw [merge_append]
  exact List.prefix_append _ _

/-- A constant equal to one that has been merged is given the index of that one. -/
theorem place_merge (cs : List Constant) : ∀ (pool : ConstantPool) {k : Nat} {c d : Constant},
    cs[k]? = some c → c.equals d = true →
      ∃ i, (pool.merge cs).1[k]? = some i ∧ (pool.merge cs).2.place d = (i, (pool.merge cs).2) := by
  induction cs with
  | nil =>
    intro pool k c d hk
    simp at hk
  | cons b cs ih =>
    intro pool k c d hk hcd
    rw [merge_cons]
    rcases k with _ | k
    · rw [List.getElem?_cons_zero, Option.some_inj] at hk
      subst hk
      exact ⟨_, rfl, place_of_place hcd (prefix_merge cs _)⟩
    · rw [List.getElem?_cons_succ] at hk
      obtain ⟨i, hi, hd⟩ := ih (pool.place b).2 hk hcd
      exact ⟨i, by rw [List.getElem?_cons_succ, hi], hd⟩

/-- A constant that joins a pool which is then merged has the index, and leaves the pool, that it
would have if it joined after the merge. -/
theorem merge_place (pool own : ConstantPool) (c : Constant) :
    (pool.merge (own.place c).2).1[(own.place c).1]? = some ((pool.merge own).2.place c).1 ∧
      (pool.merge (own.place c).2).2 = ((pool.merge own).2.place c).2 := by
  cases hfound : own.findIdx? (·.equals c) with
  | some k =>
    obtain ⟨hk, heq, -⟩ := List.findIdx?_eq_some_iff_getElem.mp hfound
    obtain ⟨i, hi, hplace⟩ := place_merge own pool (List.getElem?_eq_getElem hk) heq
    rw [place, hfound, hplace]
    exact ⟨hi, rfl⟩
  | none =>
    -- a new constant is the last one in both pools
    rw [place, hfound]
    simp only [merge_append, merge_cons]
    constructor
    · rw [List.getElem?_append_right (Nat.le_of_eq (length_merge own pool)), length_merge,
        Nat.sub_self, List.getElem?_cons_zero]
    · rfl

end ConstantPool

end StackScript
