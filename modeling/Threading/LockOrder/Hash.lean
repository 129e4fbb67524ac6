/-!
# Hashing of mutex and thread ids

Keys are hashed byte by byte, least significant byte first, and the hash is then
mixed and folded to one of 256 buckets. A bucket holds the table positions of
its keys, the newest first, so a lookup meets a key's own entry whatever keys
share its bucket.
-/
namespace Threading.LockOrder

/-- A byte as a signed number, widened to a word. -/
def signExtend (b : UInt8) : UInt32 :=
  if b < 128 then b.toUInt32 else b.toUInt32 + 0xffffff00

/-- Multiplies by 31 and adds, starting from the length of the key. -/
def hashBytes (key : List UInt8) : UInt32 :=
  key.foldl (fun h b => h * 31 + signExtend b) (UInt32.ofNat key.length)

/-- Mixes the bits of a hash and folds it to a bucket. -/
def bucketOf (h : UInt32) : Fin 256 :=
  let h := h + ~~~(h <<< 9)
  let h := h ^^^ (h >>> 14)
  let h := h + (h <<< 4)
  let h := h ^^^ (h >>> 10)
  Fin.ofNat 256 h.toNat

/-- The bytes of a word, least significant first. -/
def wordBytes (w : UInt64) : List UInt8 :=
  (List.range 8).map fun i => (w >>> (8 * UInt64.ofNat i)).toUInt8

/-- The bytes of a thread id, least significant first. -/
def tidBytes (t : Int32) : List UInt8 :=
  (List.range 4).map fun i => (t.toUInt32 >>> (8 * UInt32.ofNat i)).toUInt8

/-- The positions of the entries of a table, sorted into buckets. -/
structure Buckets where
  chains : Vector (List Nat) 256 := Vector.replicate 256 []

instance : Inhabited Buckets := ⟨{}⟩

/-- Comparing the chains as a list is quicker than comparing them by index. -/
instance : DecidableEq Buckets := fun b c =>
  decidable_of_iff (b.chains.toList = c.chains.toList) <| by
    cases b
    cases c
    rw [Vector.toList_inj, Buckets.mk.injEq]

namespace Buckets

/-- The first position in a bucket that satisfies `p`. -/
def find? (b : Buckets) (bucket : Fin 256) (p : Nat → Bool) : Option Nat :=
  b.chains[bucket].find? p

/-- Puts a position at the front of a bucket. -/
def push (b : Buckets) (bucket : Fin 256) (position : Nat) : Buckets :=
  ⟨b.chains.set bucket (position :: b.chains[bucket])⟩

end Buckets
end Threading.LockOrder
