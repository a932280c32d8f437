import Mathlib.Algebra.Group.Nat.Even
import Mathlib.Data.List.Basic
import Mathlib.Tactic.Common

/-! A byte codec as its users see it: words, booleans, fixed arrays and vectors, each with a writer
and a reader that takes the bytes of a value off the front of its input, and a strict decode that
wants nothing left over. -/
namespace MoleFinance.Borsh
variable {α β : Type}

abbrev Bytes := List UInt8

abbrev Reader (α : Type) := StateT Bytes (Except String) α

/-- The number types; a signed one is written as the unsigned one with its bits. -/
inductive Word where
  | u8 | u16 | u32 | u64 | u128
deriving DecidableEq

@[simp, reducible] def Word.len : Word → Nat
  | .u8 => 1
  | .u16 => 2
  | .u32 => 4
  | .u64 => 8
  | .u128 => 16

@[reducible] def Word.bits : Word → Nat
  | .u8 => 8
  | .u16 => 16
  | .u32 => 32
  | .u64 => 64
  | .u128 => 128

/-- What a codec provides. A structure is written and read field by field, in their order. -/
class Codec where
  putUint (w : Word) : BitVec w.bits → Bytes
  putBool : Bool → Bytes
  putArray {n : Nat} : Vector UInt8 n → Bytes
  putVec {α : Type} : (α → Bytes) → List α → Bytes
  uint (w : Word) : Reader (BitVec w.bits)
  bool : Reader Bool
  array (n : Nat) : Reader (Vector UInt8 n)
  vec {α : Type} : Reader α → Reader (List α)
  tryFromSlice {α : Type} : Reader α → Bytes → Except String α
  /-- what a strict decode says when bytes are left -/
  notAllBytesRead : String

open Codec

/-- The reader takes exactly these bytes for this value, whatever follows. -/
def Consumes (r : Reader α) (a : α) (bytes : Bytes) : Prop :=
  ∀ rest, r.run (bytes ++ rest) = .ok (a, rest)

/-- What the codec documents: how long a value is, that its reader takes just that, and that a
    strict decode refuses what leaves bytes behind. -/
class Codec.Lawful [Codec] : Prop where
  length_putUint (w : Word) (x : BitVec w.bits) : (putUint w x).length = w.len
  length_putBool (b : Bool) : (putBool b).length = 1
  length_putArray {n : Nat} (x : Vector UInt8 n) : (putArray x).length = n
  putVec_eq {α : Type} (put : α → Bytes) (xs : List α) (h : xs.length < 2 ^ 32) :
    putVec put xs = putUint .u32 (.ofNat _ xs.length) ++ (xs.map put).flatten
  consumes_uint (w : Word) (x : BitVec w.bits) : Consumes (uint w) x (putUint w x)
  consumes_bool (b : Bool) : Consumes bool b (putBool b)
  consumes_array {n : Nat} (x : Vector UInt8 n) : Consumes (array n) x (putArray x)
  consumes_vec {α β : Type} (r : Reader β) (put : α → Bytes) (f : α → β)
    (hr : ∀ a, Consumes r (f a) (put a)) (xs : List α) (h : xs.length < 2 ^ 32) :
    Consumes (vec r) (xs.map f) (putVec put xs)
  tryFromSlice_ok {α : Type} (r : Reader α) (bytes : Bytes) (a : α)
    (h : r.run bytes = .ok (a, [])) : tryFromSlice r bytes = .ok a
  tryFromSlice_left {α : Type} (r : Reader α) (bytes rest : Bytes) (a : α)
    (h : r.run bytes = .ok (a, rest)) (hrest : rest ≠ []) :
    tryFromSlice r bytes = .error notAllBytesRead

attribute [simp] Lawful.length_putUint Lawful.length_putBool Lawful.length_putArray

theorem Consumes.pure (a : α) : Consumes (pure a) a [] := fun _ => rfl

theorem Consumes.bind {r : Reader α} {f : α → Reader β} {a : α} {b : β} {xs ys : Bytes}
    (hr : Consumes r a xs) (hf : Consumes (f a) b ys) : Consumes (r >>= f) b (xs ++ ys) := by
  intro rest
  rw [List.append_assoc, StateT.run_bind, hr (ys ++ rest)]
  exact hf rest

theorem Consumes.field {r : Reader α} {f : α → Reader β} {a : α} {b : β} {x : Bytes}
    {fields : List Bytes} (hr : Consumes r a x) (hf : Consumes (f a) b fields.flatten) :
    Consumes (r >>= f) b (x :: fields).flatten := hr.bind hf

theorem Consumes.map {r : Reader α} {a : α} {xs : Bytes} (hr : Consumes r a xs) (f : α → β) :
    Consumes (r >>= fun x => Pure.pure (f x)) (f a) xs := by
  have h := hr.bind (f := fun x => Pure.pure (f x)) (Consumes.pure (f a))
  rwa [List.append_nil] at h

section Lawful
variable [Codec] [Codec.Lawful]

theorem length_putVec {put : α → Bytes} {width : Nat} (hput : ∀ a, (put a).length = width)
    {xs : List α} (h : xs.length < 2 ^ 32) : (putVec put xs).length = 4 + xs.length * width := by
  have hbody (ys : List α) : (ys.map put).flatten.length = ys.length * width := by
    induction ys with
    | nil => simp
    | cons y ys ih =>
      rw [List.map_cons, List.flatten_cons, List.length_append, hput, ih, List.length_cons,
        Nat.succ_mul, Nat.add_comm]
  rw [Lawful.putVec_eq put xs h, List.length_append, Lawful.length_putUint, hbody]

/-- A strict decode accepts the bytes of a value and refuses any that follow them. -/
theorem tryFromSlice_append {r : Reader α} {a : α} {bytes : Bytes} (h : Consumes r a bytes)
    (rest : Bytes) : tryFromSlice r (bytes ++ rest)
      = if rest = [] then .ok a else .error notAllBytesRead := by
  by_cases hrest : rest = []
  · rw [if_pos hrest]
    exact Lawful.tryFromSlice_ok r _ a (hrest ▸ h rest)
  · rw [if_neg hrest]
    exact Lawful.tryFromSlice_left r _ rest a (h rest) hrest

end Lawful

def leBytes : Nat → Nat → Bytes
  | 0, _ => []
  | k + 1, n => UInt8.ofNat n :: leBytes k (n / 256)

def leValue : Bytes → Nat
  | [] => 0
  | b :: bs => b.toNat + 256 * leValue bs

def boolBytes : Bool → Bytes
  | false => [0]
  | true => [1]

def next (n : Nat) : Reader Bytes := fun bytes =>
  if n ≤ bytes.length then .ok (bytes.take n, bytes.drop n)
  else .error "Unexpected length of input"

def readUint (w : Word) : Reader (BitVec w.bits) := do
  let bytes ← next w.len
  return BitVec.ofNat _ (leValue bytes)

def readBool : Reader Bool := do
  let byte ← next 1
  if byte = [0] then return false
  else if byte = [1] then return true
  else throw "Invalid bool representation"

def arrayOf (n : Nat) (bytes : Bytes) : Vector UInt8 n := .ofFn fun i => bytes.getD i 0

def readArray (n : Nat) : Reader (Vector UInt8 n) := do
  let bytes ← next n
  return arrayOf n bytes

def many (r : Reader α) : Nat → Reader (List α)
  | 0 => return []
  | n + 1 => do
    let x ← r
    let xs ← many r n
    return x :: xs

def readVec (r : Reader α) : Reader (List α) := do
  let n ← readUint .u32
  many r n.toNat

@[reducible] def borsh : Codec where
  putUint w x := leBytes w.len x.toNat
  putBool := boolBytes
  putArray x := x.toList
  putVec put xs := leBytes 4 (xs.length % 2 ^ 32) ++ (xs.map put).flatten
  uint := readUint
  bool := readBool
  array := readArray
  vec := readVec
  tryFromSlice r bytes := match r.run bytes with
    | .error e => .error e
    | .ok (a, rest) => if rest = [] then .ok a else .error "Not all bytes read"
  notAllBytesRead := "Not all bytes read"

theorem consumes_next (bytes : Bytes) : Consumes (next bytes.length) bytes bytes := by
  intro rest
  change (if bytes.length ≤ (bytes ++ rest).length then _ else _) = _
  rw [if_pos (by simp), List.take_left, List.drop_left]

@[simp] theorem length_leBytes (k n : Nat) : (leBytes k n).length = k := by
  induction k generalizing n with
  | zero => rfl
  | succ k ih => rw [leBytes, List.length_cons, ih]

theorem leValue_leBytes (k n : Nat) : leValue (leBytes k n) = n % 256 ^ k := by
  induction k generalizing n with
  | zero => rw [pow_zero, Nat.mod_one]; rfl
  | succ k ih =>
    rw [leBytes, leValue, ih, UInt8.toNat_ofNat', pow_succ' 256 k, Nat.mod_mul]

theorem Word.pow_len (w : Word) : 256 ^ w.len = 2 ^ w.bits := by
  cases w <;> rfl

theorem consumes_readUint (w : Word) (x : BitVec w.bits) :
    Consumes (readUint w) x (leBytes w.len x.toNat) := by
  have hread := (consumes_next (leBytes w.len x.toNat)).map fun bytes =>
    BitVec.ofNat w.bits (leValue bytes)
  have hvalue : BitVec.ofNat w.bits (leValue (leBytes w.len x.toNat)) = x := by
    rw [leValue_leBytes, w.pow_len, Nat.mod_eq_of_lt x.isLt, BitVec.ofNat_toNat,
      BitVec.setWidth_eq]
  rw [length_leBytes, hvalue] at hread
  exact hread

theorem consumes_readBool (b : Bool) : Consumes readBool b (boolBytes b) := by
  have hread := consumes_next (boolBytes b)
  have hlen : (boolBytes b).length = 1 := by
    cases b with
    | false => rfl
    | true => rfl
  rw [hlen] at hread
  have h : Consumes readBool b (boolBytes b ++ []) := by
    refine hread.bind ?_
    cases b with
    | false => exact Consumes.pure false
    | true => exact Consumes.pure true
  rwa [List.append_nil] at h

theorem consumes_readArray {n : Nat} (x : Vector UInt8 n) :
    Consumes (readArray n) x x.toList := by
  have hread := (consumes_next x.toList).map (arrayOf n)
  have hvalue : arrayOf n x.toList = x := by
    ext i hi
    simp [arrayOf]
  rw [x.length_toList, hvalue] at hread
  exact hread

theorem consumes_many {r : Reader β} {put : α → Bytes} {f : α → β}
    (hr : ∀ a, Consumes r (f a) (put a)) (xs : List α) :
    Consumes (many r xs.length) (xs.map f) (xs.map put).flatten := by
  induction xs with
  | nil => exact Consumes.pure []
  | cons x xs ih => exact (hr x).field (ih.map (f x :: ·))

theorem consumes_readVec {r : Reader β} {put : α → Bytes} {f : α → β}
    (hr : ∀ a, Consumes r (f a) (put a)) {xs : List α} (hlen : xs.length < 2 ^ 32) :
    Consumes (readVec r) (xs.map f)
      (leBytes 4 (xs.length % 2 ^ 32) ++ (xs.map put).flatten) := by
  refine (consumes_readUint .u32 (.ofNat _ xs.length)).bind ?_
  have hcount : (BitVec.ofNat 32 xs.length).toNat = xs.length := by
    rw [BitVec.toNat_ofNat]
    exact Nat.mod_eq_of_lt hlen
  rw [hcount]
  exact consumes_many hr xs

theorem borsh_lawful : @Codec.Lawful borsh :=
  letI := borsh
  { length_putUint := fun w x => length_leBytes w.len x.toNat
    length_putBool := fun b => by
      cases b with
      | false => rfl
      | true => rfl
    length_putArray := fun x => x.length_toList
    putVec_eq := fun _ _ _ => rfl
    consumes_uint := consumes_readUint
    consumes_bool := consumes_readBool
    consumes_array := consumes_readArray
    consumes_vec := fun _ _ _ hr _ h => consumes_readVec hr h
    tryFromSlice_ok := fun r bytes a h => by
      change (match r.run bytes with | .error e => _ | .ok (a, rest) => _) = _
      rw [h]
      exact if_pos rfl
    tryFromSlice_left := fun r bytes rest a h hrest => by
      change (match r.run bytes with | .error e => _ | .ok (a, rest) => _) = _
      rw [h]
      exact if_neg hrest }

end MoleFinance.Borsh
