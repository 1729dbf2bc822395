/-
Lanewise/Proofs/Releases.lean

Which compilers build the 512-bit kernels.

A stable compiler builds them on x86 from the minor version 89 on
(`prints_avx512_iff_of_tells`); its major version is not looked at.  So there are releases in
order, with the kernels in the older one and without them in the newer one: those are the
steps to a greater major version whose minor version starts again below 89,

    1.89.0 ≤ 2.0.0,

and no others (`lost_by_newer_iff`).  What only a nightly compiler is told never comes alone,
and a version text that tells no minor version is taken for that of release 0.0.0, the least of
all (`configure_of_untold`).
-/
import Lanewise.Proofs.VersionText

namespace Lanewise.Toolchain

/-! ### The order of releases -/

namespace Release

/-- The components as numbers, the one that counts most first. -/
def key (r : Release) : ℕ ×ₗ ℕ ×ₗ ℕ :=
  toLex (r.major.toNat, toLex (r.minor.toNat, r.patch.toNat))

theorem key_injective : Function.Injective key := by
  rintro ⟨major, minor, patch⟩ ⟨major', minor', patch'⟩ h
  have hkey : (major.toNat, minor.toNat, patch.toNat)
      = (major'.toNat, minor'.toNat, patch'.toNat) := h
  simpa only [Prod.mk.injEq, UInt32.toNat_inj, ← mk.injEq] using hkey

/-- Releases are compared by the first component in which they differ. -/
instance : LinearOrder Release := LinearOrder.lift' key key_injective

variable {r s : Release}

theorem le_iff : r ≤ s ↔ r.major.toNat < s.major.toNat ∨ r.major.toNat = s.major.toNat ∧
    (r.minor.toNat < s.minor.toNat ∨
      r.minor.toNat = s.minor.toNat ∧ r.patch.toNat ≤ s.patch.toNat) := by
  have hkey : r ≤ s ↔ r.key ≤ s.key := Iff.rfl
  rw [hkey, key, key, Prod.Lex.toLex_le_toLex, Prod.Lex.toLex_le_toLex]

/-- The least release. -/
def oldest : Release := ⟨0, 0, 0⟩

theorem oldest_le (r : Release) : oldest ≤ r := by
  have hzero : (0 : UInt32).toNat = 0 := rfl
  rw [le_iff, oldest, hzero]
  omega

/-- In a newer release, only a greater major version makes room for a smaller minor one. -/
theorem major_lt_of_minor_lt (h : r ≤ s) (hminor : s.minor < r.minor) : r.major < s.major := by
  rw [le_iff] at h
  rw [UInt32.lt_iff_toNat_lt] at hminor ⊢
  omega

end Release

/-! ### What is printed -/

/-- Configuring a build for a target prints a line, with a compiler that says this of its
version. -/
def Prints (version : List UInt8) (arch? : Option String) (line : String) : Prop :=
  line ∈ (configure (some version) arch?).2

/-- Compiles the 512-bit kernels. -/
def avx512Line : String := "cargo:rustc-cfg=avx512"

/-- Enables the 512-bit instructions as an unstable feature. -/
def avx512NightlyLine : String := "cargo:rustc-cfg=avx512_nightly"

/-- Tells that the compiler is a nightly one. -/
def nightlyChannelLine : String := "cargo:rustc-cfg=rustc_channel=\"nightly\""

/-- The target is one of the two with x86 instructions. -/
def TargetsX86 (arch? : Option String) : Prop := arch? = some "x86" ∨ arch? = some "x86_64"

section

variable {version version' : List UInt8} {arch? : Option String} {text : List Char} {n : Nat}
variable {r : Release}

theorem isX86_getD_iff : isX86 (arch?.getD "") = true ↔ TargetsX86 arch? := by
  rw [isX86, Bool.or_eq_true, beq_iff_eq, beq_iff_eq, TargetsX86]
  cases arch? with
  | none => simp
  | some arch => simp

theorem prints_avx512Line_iff : Prints version arch? avx512Line ↔ TargetsX86 arch? ∧
    ((ofVersion (textOfBytes version)).avx512Stable = true ∨
      (ofVersion (textOfBytes version)).nightly = true) := by
  rw [← isX86_getD_iff, Prints, configure]
  obtain ⟨nightly, minor⟩ := ofVersion (textOfBytes version)
  cases nightly <;> simp [triggers, directives, avx512Line, channel, avx512Nightly]

theorem prints_avx512NightlyLine_iff : Prints version arch? avx512NightlyLine ↔
    TargetsX86 arch? ∧ (ofVersion (textOfBytes version)).avx512Nightly = true := by
  rw [← isX86_getD_iff, Prints, configure]
  obtain ⟨nightly, minor⟩ := ofVersion (textOfBytes version)
  cases nightly <;> simp [triggers, directives, avx512NightlyLine, channel, avx512Nightly]

theorem prints_nightlyChannelLine_iff : Prints version arch? nightlyChannelLine ↔
    (ofVersion (textOfBytes version)).nightly = true := by
  rw [Prints, configure]
  obtain ⟨nightly, minor⟩ := ofVersion (textOfBytes version)
  cases nightly <;> simp [triggers, directives, nightlyChannelLine, channel]

/-! ### What a version text decides -/

theorem minor_ofVersion_of_tells (h : TellsMinor text n) : (ofVersion text).minor = n := by
  rw [ofVersion, minor?_eq_some_iff.mpr h, Option.getD_some]

theorem minor_ofVersion_of_untold (h : ∀ n, ¬TellsMinor text n) :
    (ofVersion text).minor = 0 := by
  rw [ofVersion, minor?_eq_none_iff.mpr h, Option.getD_none]

/-- A stable compiler builds the 512-bit kernels from the minor version 89 on. -/
theorem prints_avx512_iff_of_tells (hstable : ¬SaysNightly (textOfBytes version))
    (hr : TellsRelease (textOfBytes version) r) :
    Prints version arch? avx512Line ↔ TargetsX86 arch? ∧ 89 ≤ r.minor := by
  rw [prints_avx512Line_iff, nightly_ofVersion_iff, or_iff_left hstable, avx512Stable,
    minor_ofVersion_of_tells hr.tellsMinor, decide_eq_true_iff, UInt32.le_iff_toNat_le]
  rfl

/-- What is only printed for a nightly compiler is printed with the rest. -/
theorem prints_of_prints_nightly (h : Prints version arch? avx512NightlyLine) :
    Prints version arch? avx512Line ∧ TargetsX86 arch? ∧
      Prints version arch? nightlyChannelLine := by
  obtain ⟨htarget, hnightly⟩ := prints_avx512NightlyLine_iff.mp h
  have hchannel : (ofVersion (textOfBytes version)).nightly = true :=
    (Bool.and_eq_true_iff.mp hnightly).1
  exact ⟨prints_avx512Line_iff.mpr ⟨htarget, .inr hchannel⟩, htarget,
    prints_nightlyChannelLine_iff.mpr hchannel⟩

/-- Where no minor version can be read, only a nightly compiler builds the 512-bit kernels. -/
theorem prints_avx512_iff_of_untold (h : ∀ n, ¬TellsMinor (textOfBytes version) n) :
    Prints version arch? avx512Line ↔ TargetsX86 arch? ∧ SaysNightly (textOfBytes version) := by
  have hunstable : ¬(ofVersion (textOfBytes version)).avx512Stable = true := by
    rw [avx512Stable, minor_ofVersion_of_untold h]
    decide
  rw [prints_avx512Line_iff, or_iff_right hunstable, nightly_ofVersion_iff]

/-- A text that tells no minor version is taken for one that tells the least release. -/
theorem configure_of_untold (h : ∀ n, ¬TellsMinor (textOfBytes version) n)
    (holdest : TellsRelease (textOfBytes version') .oldest)
    (hchannel : SaysNightly (textOfBytes version') ↔ SaysNightly (textOfBytes version)) :
    configure (some version) arch? = configure (some version') arch? := by
  have hnightly : (ofVersion (textOfBytes version)).nightly
      = (ofVersion (textOfBytes version')).nightly := by
    rw [Bool.eq_iff_iff, nightly_ofVersion_iff, nightly_ofVersion_iff, hchannel]
  have hminor : (ofVersion (textOfBytes version)).minor
      = (ofVersion (textOfBytes version')).minor := by
    rw [minor_ofVersion_of_untold h, minor_ofVersion_of_tells holdest.tellsMinor]
    rfl
  have hsame : ofVersion (textOfBytes version) = ofVersion (textOfBytes version') :=
    Toolchain.mk.injEq .. ▸ ⟨hnightly, hminor⟩
  rw [configure, configure, hsame]

end

/-- **Of two stable compilers, the newer one loses the 512-bit kernels** exactly if its major
version is greater and its minor version is below 89.  What only a nightly compiler is told is
never printed alone, nor for another target or channel.  Where no minor version can be read, the
compiler is taken for the least release of its channel. -/
theorem lost_by_newer_iff (version version' : List UInt8) (arch? : Option String) :
    (∀ r r' : Release,
      ¬SaysNightly (textOfBytes version) → ¬SaysNightly (textOfBytes version') →
      TellsRelease (textOfBytes version) r → TellsRelease (textOfBytes version') r' → r ≤ r' →
      Prints version arch? avx512Line →
      (¬Prints version' arch? avx512Line ↔ r.major < r'.major ∧ r'.minor < 89)) ∧
    (Prints version arch? avx512NightlyLine →
      Prints version arch? avx512Line ∧ TargetsX86 arch? ∧
        Prints version arch? nightlyChannelLine) ∧
    (∀ r, Release.oldest ≤ r) ∧
    ((∀ n, ¬TellsMinor (textOfBytes version) n) →
      (Prints version arch? avx512Line ↔ TargetsX86 arch? ∧ SaysNightly (textOfBytes version)) ∧
      (TellsRelease (textOfBytes version') .oldest →
        (SaysNightly (textOfBytes version') ↔ SaysNightly (textOfBytes version)) →
        configure (some version) arch? = configure (some version') arch?)) := by
  refine ⟨?_, prints_of_prints_nightly, Release.oldest_le, fun h =>
    ⟨prints_avx512_iff_of_untold h, configure_of_untold h⟩⟩
  intro r r' hstable hstable' hr hr' hle hprints
  obtain ⟨htarget, hminor⟩ := (prints_avx512_iff_of_tells hstable hr).mp hprints
  rw [prints_avx512_iff_of_tells hstable' hr', not_and, UInt32.not_le]
  constructor
  · intro hlost
    have hless := hlost htarget
    exact ⟨Release.major_lt_of_minor_lt hle (UInt32.lt_of_lt_of_le hless hminor), hless⟩
  · exact fun h _ => h.2

/-- What a compiler says of its version, with a release in it. -/
def said (release : String) : List UInt8 :=
  ("rustc\nrelease: " ++ release ++ "\nLLVM version: 20.1\n").toList.map fun c =>
    UInt8.ofNat c.toNat

/-- The step from 1.89.0 to 2.0.0 loses the kernels, a nightly 1.88.0 has them, and a word in place
of a release is taken for 0.0.0. -/
theorem lost_by_newer_two :
    (TellsRelease (textOfBytes (said "1.89.0")) ⟨1, 89, 0⟩ ∧
      TellsRelease (textOfBytes (said "2.0.0")) ⟨2, 0, 0⟩ ∧
      Prints (said "1.89.0") (some "x86_64") avx512Line ∧
      ¬Prints (said "2.0.0") (some "x86_64") avx512Line) ∧
    (Prints (said "1.88.0-nightly") (some "x86") avx512NightlyLine ∧
      Prints (said "1.88.0-nightly") (some "x86") avx512Line) ∧
    ((∀ n, ¬TellsMinor (textOfBytes (said "unknown")) n) ∧
      configure (some (said "unknown")) none = configure (some (said "0.0.0")) none) := by
  have h189 : TellsRelease (textOfBytes (said "1.89.0")) ⟨1, 89, 0⟩ :=
    tellsRelease_of_findSome? ['1'] ['8', '9'] ['0'] (by decide) (by decide) (by decide) (by decide)
  have h200 : TellsRelease (textOfBytes (said "2.0.0")) ⟨2, 0, 0⟩ :=
    tellsRelease_of_findSome? ['2'] ['0'] ['0'] (by decide) (by decide) (by decide) (by decide)
  have h000 : TellsRelease (textOfBytes (said "0.0.0")) .oldest :=
    tellsRelease_of_findSome? ['0'] ['0'] ['0'] (by decide) (by decide) (by decide) (by decide)
  have hprints : Prints (said "1.89.0") (some "x86_64") avx512Line :=
    prints_avx512Line_iff.mpr ⟨.inr rfl, .inl (by decide)⟩
  have hnightly : Prints (said "1.88.0-nightly") (some "x86") avx512NightlyLine :=
    prints_avx512NightlyLine_iff.mpr ⟨.inl rfl, by decide⟩
  have hnone : ∀ n, ¬TellsMinor (textOfBytes (said "unknown")) n :=
    minor?_eq_none_iff.mp (by decide)
  refine ⟨⟨h189, h200, hprints, ?_⟩, ⟨hnightly, ?_⟩, hnone, ?_⟩
  · exact ((lost_by_newer_iff _ _ _).1 _ _ (by decide) (by decide) h189 h200 (by decide)
      hprints).mpr (by decide)
  · exact ((lost_by_newer_iff _ [] _).2.1 hnightly).1
  · exact ((lost_by_newer_iff _ _ _).2.2.2 hnone).2 h000 (by decide)

end Lanewise.Toolchain
