set_option autoImplicit false

/-!
# The Mersenne twister

A generator of 32-bit words with 624 words of state. `Twister.ofSeed` fills the state from an
integer, `Twister.next` gives one word.
-/
namespace CellCollapse

structure Twister where
  words : Vector UInt32 624
  /-- How many words of the present state were given out. -/
  used : Nat

namespace Twister

abbrev Words := Vector UInt32 624

/-- The word at a place, counted around. -/
def word (v : Words) (i : Nat) : UInt32 := v.get ⟨i % 624, Nat.mod_lt _ (by decide)⟩

def put (v : Words) (i : Nat) (x : UInt32) : Words := v.set (i % 624) x (Nat.mod_lt _ (by decide))

def spread (x : UInt32) : UInt32 := x ^^^ (x >>> 30)

/-- The state grown from one word. -/
def ofWord (s : UInt32) : Words :=
  Nat.fold 623
    (fun i _ v => put v (i + 1) (1812433253 * spread (word v i) + UInt32.ofNat (i + 1)))
    (put (Vector.replicate 624 0) 0 s)

/-- A pass over the state; place 0 is skipped and takes the word before it. -/
def pass (rounds : Nat) (mix : (round place : Nat) → Words → UInt32) (start : Nat × Words) :
    Nat × Words :=
  Nat.fold rounds
    (fun round _ s =>
      let (place, v) := s
      let v := put v place (mix round place v)
      if place + 1 ≥ 624 then (1, put v 0 (word v 623)) else (place + 1, v))
    start

/-- The state grown from a list of words. -/
def ofKey (key : Array UInt32) : Words :=
  let first := pass (max 624 key.size)
    (fun round place v =>
      let j := round % key.size
      (word v place ^^^ (spread (word v (place - 1)) * 1664525)) + key.getD j 0 + UInt32.ofNat j)
    (1, ofWord 19650218)
  let second := pass 623
    (fun _ place v =>
      (word v place ^^^ (spread (word v (place - 1)) * 1566083941)) - UInt32.ofNat place)
    first
  put second.2 0 0x80000000

/-- The 32-bit words of a natural, the lowest first. -/
def wordsOf (n : Nat) : List UInt32 :=
  UInt32.ofNat n :: if h : n < 4294967296 then [] else wordsOf (n / 4294967296)
termination_by n
decreasing_by omega

def ofSeed (seed : Int) : Twister := ⟨ofKey (wordsOf seed.natAbs).toArray, 624⟩

/-- Renews the whole state, each word from its successor and the word 397 places on. -/
def renew (v : Words) : Words :=
  Nat.fold 624
    (fun k _ v =>
      let y := (word v k &&& 0x80000000) ||| (word v (k + 1) &&& 0x7FFFFFFF)
      put v k (word v (k + 397) ^^^ (y >>> 1) ^^^ (if y &&& 1 = 0 then 0 else 0x9908B0DF)))
    v

def temper (y : UInt32) : UInt32 :=
  let y := y ^^^ (y >>> 11)
  let y := y ^^^ ((y <<< 7) &&& 0x9D2C5680)
  let y := y ^^^ ((y <<< 15) &&& 0xEFC60000)
  y ^^^ (y >>> 18)

def next (t : Twister) : UInt32 × Twister :=
  let t := if t.used < 624 then t else ⟨renew t.words, 0⟩
  (temper (word t.words t.used), ⟨t.words, t.used + 1⟩)

end Twister

end CellCollapse
