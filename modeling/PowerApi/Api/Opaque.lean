import Mathlib.Algebra.Group.Nat.Defs
import Mathlib.Logic.Function.Basic
import PowerApi.Lib.HashTable

namespace pwrapi

/-- `opaque_type_t`. -/
inductive OpaqueType where
  | INVALID | CONTEXT | GROUP | OBJECT | STATUS | STAT | HINT
  deriving DecidableEq, Repr

/-- `opaque_ref_t`, with which every record begins that a handle can stand for. -/
structure OpaqueRef where
  type : OpaqueType := .INVALID
  key : UInt64 := 0
  deriving DecidableEq, Repr

/-- `opaque_map_t`, with the `opaque_ref_t` of every record, by its address. -/
structure OpaqueMap (α : Type) where
  table : HashTable UInt64 α := ∅
  refs : α → OpaqueRef := fun _ => {}

abbrev OPAQUE_LOWER : UInt64 := 0x00000000ffffffff

def OPAQUE_GENERATE (context_key data_key : UInt64) : UInt64 :=
  (context_key <<< 32) ||| (data_key &&& OPAQUE_LOWER)

def OPAQUE_GET_CONTEXT_KEY (handle : UInt64) : UInt64 := handle >>> 32

def OPAQUE_GET_DATA_KEY (handle : UInt64) : UInt64 := OPAQUE_LOWER &&& handle

section Map

variable {α : Type} [DecidableEq α]

def opaque_map_lookup (map : OpaqueMap α) (key : UInt64) : Option α := map.table.lookup key

def opaque_map_lookup_type (map : OpaqueMap α) (key : UInt64) (type : OpaqueType) : Option α :=
  match opaque_map_lookup map key with
  | none => none
  | some record => if (map.refs record).type ≠ type then none else some record

/-- The loop of `opaque_map_insert` on the numbers that `g_rand_int` is about to draw. It
returns the key with the numbers not drawn, or nothing while no number ends the loop. -/
def opaque_map_insert (type : OpaqueType) (record : α) :
    List UInt32 → OpaqueMap α → Option (UInt64 × List UInt32 × OpaqueMap α)
  | [], _ => none
  | draw :: draws, map =>
    let key := draw.toUInt64
    match opaque_map_lookup map key with
    | some _ => opaque_map_insert type record draws map
    | none =>
      let map := { table := map.table.insert key record,
                   refs := Function.update map.refs record { type, key } }
      -- a key of zero is entered as well, and drawn again
      if key = 0 then opaque_map_insert type record draws map
      else some (key, draws, map)

/-- `g_hash_table_remove` with `opaque_map_clean_entry` for the value that is removed. -/
def opaque_map_remove (map : OpaqueMap α) (key : UInt64) : Bool × OpaqueMap α :=
  match opaque_map_lookup map key with
  | none => (false, map)
  | some record => (true, { table := map.table.erase key,
                            refs := Function.update map.refs record { type := .INVALID, key := 0 } })

end Map

section Macros

variable {context_key data_key : UInt64}

theorem OPAQUE_GENERATE_toNat (hcontext : context_key.toNat < 2 ^ 32) (hdata : data_key.toNat < 2 ^ 32) :
    (OPAQUE_GENERATE context_key data_key).toNat = context_key.toNat * 2 ^ 32 + data_key.toNat := by
  have hlower : (data_key &&& OPAQUE_LOWER).toNat = data_key.toNat := by
    rw [UInt64.toNat_and]
    exact (Nat.and_two_pow_sub_one_eq_mod _ 32).trans (Nat.mod_eq_of_lt hdata)
  have hshift : (context_key <<< (32 : UInt64)).toNat = context_key.toNat <<< 32 := by
    rw [UInt64.toNat_shiftLeft]
    refine Nat.mod_eq_of_lt ?_
    rw [Nat.shiftLeft_eq]
    show context_key.toNat * 2 ^ 32 < 2 ^ 64
    omega
  rw [OPAQUE_GENERATE, UInt64.toNat_or, hshift, hlower, ← Nat.shiftLeft_add_eq_or_of_lt hdata, Nat.shiftLeft_eq]

theorem OPAQUE_GET_CONTEXT_KEY_generate (hcontext : context_key.toNat < 2 ^ 32) (hdata : data_key.toNat < 2 ^ 32) :
    OPAQUE_GET_CONTEXT_KEY (OPAQUE_GENERATE context_key data_key) = context_key := by
  apply UInt64.toNat_inj.mp
  rw [OPAQUE_GET_CONTEXT_KEY, UInt64.toNat_shiftRight, OPAQUE_GENERATE_toNat hcontext hdata,
    Nat.shiftRight_eq_div_pow]
  show (context_key.toNat * 2 ^ 32 + data_key.toNat) / 2 ^ 32 = context_key.toNat
  omega

theorem OPAQUE_GET_DATA_KEY_generate (hcontext : context_key.toNat < 2 ^ 32) (hdata : data_key.toNat < 2 ^ 32) :
    OPAQUE_GET_DATA_KEY (OPAQUE_GENERATE context_key data_key) = data_key := by
  apply UInt64.toNat_inj.mp
  rw [OPAQUE_GET_DATA_KEY, UInt64.toNat_and, OPAQUE_GENERATE_toNat hcontext hdata, Nat.and_comm]
  show (context_key.toNat * 2 ^ 32 + data_key.toNat) &&& (2 ^ 32 - 1) = data_key.toNat
  rw [Nat.and_two_pow_sub_one_eq_mod]
  omega

end Macros

end pwrapi
