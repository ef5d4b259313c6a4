import CellCollapse.Random.Choice
import CellCollapse.Random.Twister

set_option autoImplicit false

/-!
# Random sources

A source is either seeded, and then its numbers come from a twister, or scripted, and then its
draws are given in advance and used over and over.
-/
namespace CellCollapse

inductive Source where
  | seeded (state : Twister)
  | scripted (draws : Array Nat) (used : Nat)

namespace Source

def ofSeed (seed : Int) : Source := .seeded (.ofSeed seed)

def ofDraws (draws : List Nat) : Source := .scripted draws.toArray 0

/-- The scripted draw with a given number. -/
def scriptedDraw (draws : Array Nat) (k : Nat) : Nat := draws.getD (k % draws.size) 0

/-- A number from zero up to and without one. -/
def draw : Source → Float × Source
  | .seeded t =>
    let (a, t) := t.next
    let (b, t) := t.next
    let n := (a >>> 5).toNat * Nat.pow 2 26 + (b >>> 6).toNat
    (Float.ofNat n / 9007199254740992.0, .seeded t)
  | .scripted draws used =>
    (Float.ofNat (scriptedDraw draws used) / 4294967296.0, .scripted draws (used + 1))

/-- Draws words of as many bits as the bound has until one lies below it. The tries are bounded;
when all of them fail the last remainder counts. -/
def below (n bits : Nat) : Nat → Twister → Fin (n + 1) × Twister
  | 0, t =>
    let (u, t) := t.next
    (Fin.ofNat (n + 1) u.toNat, t)
  | tries + 1, t =>
    let (u, t) := t.next
    let r := u.toNat >>> (32 - bits)
    if h : r < n + 1 then (⟨r, h⟩, t) else below n bits tries t

/-- A uniform choice among `n + 1` candidates. -/
def pick : TieBreak Source := fun n s =>
  match s with
  | .seeded t =>
    let (k, t) := below n (Nat.log2 (n + 1) + 1) 4096 t
    (k, .seeded t)
  | .scripted draws used =>
    (Fin.ofNat (n + 1) (scriptedDraw draws used * Nat.pow 2 21), .scripted draws (used + 1))

def choose : Chooser Source := Chooser.weighted draw

end Source

end CellCollapse
