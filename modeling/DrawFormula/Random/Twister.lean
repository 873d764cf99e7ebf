import DrawFormula.Random.Source
import DrawFormula.Text.Basic

/-! # The Mersenne twister

The generator with a period of 2^19937 - 1, seeded by a hash of texts.  A number below a bound is
drawn by rejection: as many bits as the bound has are drawn until they denote a smaller number.
-/
namespace DrawFormula

/-- The state of the generator: a block of words and the place of the next one. -/
structure Twister where
  block : Array UInt32
  next : Nat

namespace Twister

/-- The number of words in a block. -/
def size : Nat := 624

/-- The distance of the words that are mixed. -/
def distance : Nat := 397

/-- The block grown from one word. -/
def initial (seed : UInt32) : Array UInt32 :=
  (List.range (size - 1)).foldl (fun block i =>
    let last : UInt32 := block.getD i 0
    block.push ((1812433253 : UInt32) * (last ^^^ (last >>> 30)) + UInt32.ofNat (i + 1))) #[seed]

/-- The word after the place `i` of a block, with its first word carried over from its last. -/
def advance (block : Array UInt32) (i : Nat) : Array UInt32 × Nat :=
  if size ≤ i + 1 then (block.setIfInBounds 0 (block.getD (size - 1) 0), 1) else (block, i + 1)

/-- Mixes a key of one word into the block, `rounds` times from the place `i`. -/
def mixKey (key : UInt32) : Nat → Array UInt32 → Nat → Array UInt32 × Nat
  | 0, block, i => (block, i)
  | rounds + 1, block, i =>
    let previous := block.getD (i - 1) 0
    let word := (block.getD i 0 ^^^ ((previous ^^^ (previous >>> 30)) * 1664525)) + key
    let (block, i) := advance (block.setIfInBounds i word) i
    mixKey key rounds block i

/-- Mixes the places into the block, `rounds` times from the place `i`. -/
def mixPlaces : Nat → Array UInt32 → Nat → Array UInt32
  | 0, block, _ => block
  | rounds + 1, block, i =>
    let previous := block.getD (i - 1) 0
    let word := (block.getD i 0 ^^^ ((previous ^^^ (previous >>> 30)) * 1566083941)) -
      UInt32.ofNat i
    let (block, i) := advance (block.setIfInBounds i word) i
    mixPlaces rounds block i

/-- The generator of a seed. -/
def ofSeed (seed : UInt32) : Twister :=
  let (block, i) := mixKey seed size (initial 19650218) 1
  let block := mixPlaces (size - 1) block i
  ⟨block.setIfInBounds 0 0x80000000, size⟩

/-- The next block, word by word from the place `i` on. -/
def regenerate : Nat → Array UInt32 → Nat → Array UInt32
  | 0, block, _ => block
  | rounds + 1, block, i =>
    let y := (block.getD i 0 &&& 0x80000000) ||| (block.getD ((i + 1) % size) 0 &&& 0x7fffffff)
    let mixed := block.getD ((i + distance) % size) 0 ^^^ (y >>> 1)
    let word := if y &&& 1 = 0 then mixed else mixed ^^^ 0x9908b0df
    regenerate rounds (block.setIfInBounds i word) (i + 1)

/-- Evens out the bits of a word. -/
def temper (y : UInt32) : UInt32 :=
  let y := y ^^^ (y >>> 11)
  let y := y ^^^ ((y <<< 7) &&& 0x9d2c5680)
  let y := y ^^^ ((y <<< 15) &&& 0xefc60000)
  y ^^^ (y >>> 18)

/-- The next word. -/
def word (g : Twister) : UInt32 × Twister :=
  if size ≤ g.next then
    let block := regenerate size g.block 0
    (temper (block.getD 0 0), ⟨block, 1⟩)
  else (temper (g.block.getD g.next 0), ⟨g.block, g.next + 1⟩)

/-- A number from 0 to below 1 with 53 random bits. -/
def unit (g : Twister) : Float × Twister :=
  let (a, g) := g.word
  let (b, g) := g.word
  let n := (a >>> 5).toNat * Nat.pow 2 26 + (b >>> 6).toNat
  (Float.ofNat n / 9007199254740992.0, g)

/-- A number of `k` random bits, the words from the least significant on; the last word gives its
upper bits. -/
def bits : Nat → Nat → Twister → Nat × Twister
  | 0, _, g => (0, g)
  | fuel + 1, k, g =>
    let (w, g) := g.word
    if k ≤ 32 then (w.toNat >>> (32 - k), g)
    else
      let (rest, g) := bits fuel (k - 32) g
      (w.toNat + rest * Nat.pow 2 32, g)

/-- The number of bits of a number. -/
def bitLength (n : Nat) : Nat := if n = 0 then 0 else Nat.log2 n + 1

/-- Draws until a number is below the bound.  A draw fails at most every other time, so that the
fuel of a thousand draws does not run out in practice; 0 would be taken then. -/
def reject (n : Nat) (h : 0 < n) : Nat → Twister → Fin n × Twister
  | 0, g => (⟨0, h⟩, g)
  | fuel + 1, g =>
    let (r, g) := bits (bitLength n + 1) (bitLength n) g
    if hr : r < n then (⟨r, hr⟩, g) else reject n h fuel g

instance : RandomSource Twister where
  unit := unit
  below n h g := reject n h 1000 g

/-- The hash of bytes by xor and multiplication in 32 bits. -/
def hash (bytes : ByteArray) : UInt32 :=
  bytes.toList.foldl (fun h b => (h ^^^ b.toUInt32) * 16777619) 2166136261

/-- The generator of the texts with bars between them. -/
def ofTexts (parts : List Text) : Twister :=
  ofSeed (hash (String.ofList (List.intercalate ['|'] parts)).toUTF8)

end Twister

end DrawFormula
