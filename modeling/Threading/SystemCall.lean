import Threading.Word

/-!
# Results of system calls

The kernel returns one word. The topmost 4095 words are error numbers, negated;
every other word is a result.
-/
namespace Threading.SystemCall

/-- The greatest error number. -/
def maxErrno : UInt64 := 4095

/-- The greatest word that is a result. -/
def maxResult : UInt64 := 0xffffffffffffffff - maxErrno

/-- Tells results and error numbers apart. -/
def decode (ret : UInt64) : Except Int32 UInt64 :=
  if maxResult < ret then .error (Int32.ofNat (UInt64.size - ret.toNat)) else .ok ret

/-- The word that stands for an error number. -/
def encodeErrno (errno : Nat) : UInt64 := UInt64.ofNat (UInt64.size - errno)

theorem pos_of_decode {ret : UInt64} {errno : Int32} (h : decode ret = .error errno) :
    0 < errno := by
  rw [decode] at h
  split at h
  next hret =>
    have hlow : maxResult.toNat < ret.toNat := UInt64.lt_iff_toNat_lt.1 hret
    have hmax : maxResult.toNat = UInt64.size - 4096 := rfl
    have hsmall : UInt64.size - ret.toNat < 2 ^ 31 := by
      rw [hmax] at hlow
      omega
    have hpos : 0 < UInt64.size - ret.toNat := Nat.sub_pos_of_lt ret.toNat_lt_size
    obtain rfl := Except.error.inj h
    rw [Int32.lt_iff_toInt_lt, Int32.toInt_ofNat_of_lt hsmall]
    exact Int.ofNat_lt.2 hpos
  next => cases h

example : decode (encodeErrno 22) = .error 22 ∧ decode 22 = .ok 22 := ⟨rfl, rfl⟩

end Threading.SystemCall
