/-
The Mersenne twister on 32-bit words, seeded by a list of words, as a source of random choices.
A state is a ring of 624 words and the place of the next one; each step renews the word at that
place from three words of the ring and hands it out tempered.
-/
import ScriptSyntax.Corpus.Generator

namespace ScriptSyntax.Corpus

/-- So many words are in a ring. -/
def ringSize : Nat := 624

structure Twister where
  ring : Vector UInt32 ringSize
  place : Nat

namespace Twister

/-- The word at a place, counted around the ring. -/
def word (ring : Vector UInt32 ringSize) (i : Nat) : UInt32 :=
  ring.get ⟨i % ringSize, Nat.mod_lt _ (by decide)⟩

def setWord (ring : Vector UInt32 ringSize) (i : Nat) (w : UInt32) : Vector UInt32 ringSize :=
  ring.set (i % ringSize) w (Nat.mod_lt _ (by decide))

/-- A word folded onto itself, as the seeding mixes it. -/
def folded (w : UInt32) : UInt32 := w ^^^ (w >>> 30)

/-- The ring that a single word seeds. -/
def ringOfWord (seed : UInt32) : Vector UInt32 ringSize :=
  (List.range (ringSize - 1)).foldl
    (fun ring i => setWord ring (i + 1) (1812433253 * folded (word ring i) + UInt32.ofNat (i + 1)))
    (setWord (Vector.replicate ringSize 0) 0 seed)

/-- A round of seeding: the word at `i` is renewed from itself and the one before it; behind the
last word the ring starts over at its second one. -/
def mixAt (state : Vector UInt32 ringSize × Nat) (renew : UInt32 → UInt32 → UInt32) :
    Vector UInt32 ringSize × Nat :=
  let (ring, i) := state
  let ring := setWord ring i (renew (word ring i) (word ring (i - 1)))
  if i + 1 < ringSize then (ring, i + 1) else (setWord ring 0 (word ring (ringSize - 1)), 1)

/-- The state that a list of words seeds. -/
def ofWords (key : List UInt32) : Twister :=
  let rounds := max ringSize key.length
  let first := (List.range rounds).foldl
    (fun state n =>
      let j := n % key.length
      mixAt state fun w before =>
        (w ^^^ (folded before * 1664525)) + key.getD j 0 + UInt32.ofNat j)
    (ringOfWord 19650218, 1)
  let second := (List.range (ringSize - 1)).foldl
    (fun state _ =>
      mixAt state fun w before =>
        (w ^^^ (folded before * 1566083941)) - UInt32.ofNat state.2)
    first
  ⟨setWord second.1 0 0x80000000, 0⟩

/-- The 32-bit words of a number, the lowest first; zero has one word. -/
def words (n : Nat) : List UInt32 :=
  if n < Nat.pow 2 32 then [UInt32.ofNat n]
  else UInt32.ofNat (n % Nat.pow 2 32) :: words (n / Nat.pow 2 32)
decreasing_by
  rename_i h
  exact Nat.div_lt_self (Nat.pos_of_ne_zero fun h0 => h (h0 ▸ by decide)) (by decide)

/-- The state that an integer seeds; its sign does not count. -/
def ofSeed (seed : Int) : Twister := ofWords (words seed.natAbs)

def temper (w : UInt32) : UInt32 :=
  let w := w ^^^ (w >>> 11)
  let w := w ^^^ ((w <<< 7) &&& 0x9D2C5680)
  let w := w ^^^ ((w <<< 15) &&& 0xEFC60000)
  w ^^^ (w >>> 18)

/-- The next word. -/
def next : StateM Twister UInt32 := fun t =>
  let i := t.place
  let joined := (word t.ring i &&& 0x80000000) ||| (word t.ring (i + 1) &&& 0x7FFFFFFF)
  let renewed := word t.ring (i + 397) ^^^ (joined >>> 1) ^^^
    (if joined &&& 1 = 0 then 0 else 0x9908B0DF)
  (temper renewed, ⟨setWord t.ring i renewed, (i + 1) % ringSize⟩)

/-- 27 bits of one word and 26 of the next. -/
def fraction : StateM Twister Nat := do
  let high ← next
  let low ← next
  return (high >>> 5).toNat * Nat.pow 2 26 + (low >>> 6).toNat

/-- The first number below `n + 1` among the leading bits of the next words, as many bits as `n + 1`
has; after `tries` misses, the remainder of one more. -/
def firstBelow (n : Nat) : (tries : Nat) → StateM Twister (Fin (n + 1))
  | 0 => do return Fin.ofNat (n + 1) (← next).toNat
  | tries + 1 => do
    let r := (← next).toNat >>> (31 - (n + 1).log2)
    if h : r < n + 1 then return ⟨r, h⟩ else firstBelow n tries

def draws : Draws Twister := ⟨fraction, fun n => firstBelow n 1000⟩

end Twister

/-- The sources that a seed leads to. -/
def sources (seed : Int) (count : Int) : List String :=
  ((Twister.draws.sources count.toNat).run (Twister.ofSeed seed)).1

end ScriptSyntax.Corpus
