import Decibell.Lib.Checked

/-!
# Encode sizing

The size a captured source is encoded at, and the rectangle it is scaled into. Products and
quotients are those of 64-bit numbers, and are checked: a function gives nothing where one of them
overflows or divides by zero.
-/

namespace Decibell.EncodeSizing

open Lib

/-- `n & !1` -/
def evenDown (n : Nat) : Nat := n - n % 2

/-- A source's scale, as a fraction; from one on the source fits. -/
def scale (long short longMax shortMax : Nat) : Option (Nat × Nat) :=
  if shortMax = 0 then some (1, 1)
  else do
    let a ← checkedMul 64 longMax short
    let b ← checkedMul 64 shortMax long
    some (if a ≤ b then (longMax, long) else (shortMax, short))

/-- A source's encode size under a ceiling; one with a zero side is none. -/
def sourceEncodeSize (srcW srcH maxW maxH : UInt32) : Option (Nat × Nat) := do
  let w := max srcW.toNat 2
  let h := max srcH.toNat 2
  let (num, den) ← scale (max w h) (min w h) (max maxW.toNat maxH.toNat) (min maxW.toNat maxH.toNat)
  let (outW, outH) ←
    if num ≥ den then some (w, h)
    else do
      let outW ← checkedDiv (← checkedMul 64 w num) den
      let outH ← checkedDiv (← checkedMul 64 h num) den
      some (outW, outH)
  some (max (evenDown (outW % 2 ^ 32)) 2, max (evenDown (outH % 2 ^ 32)) 2)

/-- The edges of a rectangle. -/
structure Rect where
  left : Int
  top : Int
  right : Int
  bottom : Int
deriving DecidableEq

/-- The sides of an image at the scale of a target. -/
def fittedSides (sw sh dw dh : Nat) : Option (Nat × Nat) := do
  let a ← checkedMul 64 sw dh
  let b ← checkedMul 64 sh dw
  if a ≥ b then
    -- The source is relatively wider, or equal.
    let sum ← checkedAdd 64 b (sw / 2)
    let h ← checkedDiv sum sw
    some (dw, h)
  else
    let sum ← checkedAdd 64 a (sh / 2)
    let w ← checkedDiv sum sh
    some (w, dh)

/-- A side as it is cut to that of the target. -/
def fitSide (size n : Nat) : Nat :=
  let n := min (max n 1) size
  if n < size then min (max (evenDown n) 2) size else n

/-- Where a side starts and stops. -/
def centredEnds (size n : Nat) : Option (Int × Int) := do
  let margin ← checkedSub size n
  let start := evenDown (margin / 2)
  let stop ← checkedAdd 64 start n
  some (wrapInt 32 start, wrapInt 32 stop)

/-- The rectangle that an image is fitted into. -/
def aspectFitRect (srcW srcH dstW dstH : UInt32) : Option Rect :=
  if srcW = 0 ∨ srcH = 0 ∨ dstW = 0 ∨ dstH = 0 then
    some ⟨0, 0, wrapInt 32 dstW.toNat, wrapInt 32 dstH.toNat⟩
  else do
    let sides ← fittedSides srcW.toNat srcH.toNat dstW.toNat dstH.toNat
    let (left, right) ← centredEnds dstW.toNat (fitSide dstW.toNat sides.1)
    let (top, bottom) ← centredEnds dstH.toNat (fitSide dstH.toNat sides.2)
    some ⟨left, top, right, bottom⟩

/-! ## What is legal -/

/-- A size that a source may be encoded at. -/
structure LegalSize (srcW srcH maxW maxH : Nat) (w h : Nat) : Prop where
  even : w % 2 = 0 ∧ h % 2 = 0
  two_le : 2 ≤ w ∧ 2 ≤ h
  /-- It is inside the ceiling, which is turned as the source is. -/
  inside : maxW ≠ 0 → maxH ≠ 0 →
    if srcH ≤ srcW then w ≤ max maxW maxH ∧ h ≤ min maxW maxH
    else w ≤ min maxW maxH ∧ h ≤ max maxW maxH
  /-- It is not larger than the source, rounded up to even. -/
  le_source : w ≤ (srcW + 1) / 2 * 2 ∧ h ≤ (srcH + 1) / 2 * 2
  /-- Both sides are the source's at one scale, within two pixels. -/
  ratio : ∃ num den, 0 < num ∧ num ≤ den ∧
    w * den < srcW * num + 2 * den ∧ srcW * num < w * den + 2 * den ∧
    h * den < srcH * num + 2 * den ∧ srcH * num < h * den + 2 * den

/-- Inside a target side: centred, even where it does not touch the border. -/
structure Centred (size : Nat) (start stop : Int) : Prop where
  inside : 0 ≤ start ∧ start ≤ stop ∧ stop ≤ size
  even : start % 2 = 0 ∧ (stop = size ∨ stop % 2 = 0)
  /-- The margins are as wide as even ends allow. -/
  margins : start ≤ size - stop ∧ size - stop ≤ start + 3

/-! ## Sizes -/

section Sizes

variable {n num den srcW srcH maxW maxH : Nat}

/-- A side of a source at the scale. -/
def scaled (num den n : Nat) : Nat := if num ≥ den then n else n * num / den

def outSide (num den src : Nat) : Nat := max (evenDown (scaled num den (max src 2))) 2

theorem scaled_le : scaled num den n ≤ n := by
  rw [scaled]
  split
  · exact Nat.le_refl n
  · exact Nat.div_le_of_le_mul (by rw [Nat.mul_comm den]; exact Nat.mul_le_mul_left n (by omega))

theorem evenDown_le : evenDown n ≤ n := Nat.sub_le n _

theorem scale_spec {long short longMax shortMax : Nat} (hlong : long < 2 ^ 32) (hshort : 0 < short)
    (hle : short ≤ long) (hlongMax : longMax < 2 ^ 32) (hmax : shortMax ≤ longMax) :
    ∃ num den, scale long short longMax shortMax = some (num, den) ∧ 0 < den ∧ num < 2 ^ 32 ∧
      den < 2 ^ 32 ∧ (0 < shortMax → 0 < num ∧ scaled num den long ≤ longMax ∧
        scaled num den short ≤ shortMax) ∧ (shortMax = 0 → num = 1 ∧ den = 1) := by
  rw [scale]
  split
  · next hzero => exact ⟨1, 1, rfl, by omega, by omega, by omega, by omega, fun _ => ⟨rfl, rfl⟩⟩
  · next hpos =>
    have ha := checkedMul_of_half hlongMax (Nat.lt_of_le_of_lt hle hlong)
    have hb := checkedMul_of_half (Nat.lt_of_le_of_lt hmax hlongMax) hlong
    rw [ha, hb, Option.bind_eq_bind, Option.bind_some, Option.bind_some]
    split
    · next hwide =>
      refine ⟨longMax, long, rfl, by omega, hlongMax, hlong, fun _ => ⟨by omega, ?_, ?_⟩, by omega⟩
      · rw [scaled]
        split
        · assumption
        · rw [Nat.mul_div_cancel_left _ (by omega)]
      · rw [scaled]
        split
        · next hfits =>
          refine Nat.le_of_mul_le_mul_right ?_ (by omega : 0 < long)
          calc short * long ≤ longMax * short := by
                rw [Nat.mul_comm]
                exact Nat.mul_le_mul_right short hfits
            _ ≤ shortMax * long := hwide
        · refine Nat.div_le_of_le_mul ?_
          rwa [Nat.mul_comm short, Nat.mul_comm long]
    · next hnarrow =>
      refine ⟨shortMax, short, rfl, hshort, by omega, by omega, fun _ => ⟨by omega, ?_, ?_⟩,
        by omega⟩
      · rw [scaled]
        split
        · next hfits =>
          refine Nat.le_of_mul_le_mul_right ?_ hshort
          calc long * short ≤ shortMax * long := by
                rw [Nat.mul_comm]
                exact Nat.mul_le_mul_right long hfits
            _ ≤ longMax * short := by omega
        · refine Nat.div_le_of_le_mul ?_
          rw [Nat.mul_comm long, Nat.mul_comm short]
          omega
      · rw [scaled]
        split
        · assumption
        · rw [Nat.mul_div_cancel_left _ hshort]

theorem outSide_spec {src : Nat} (hsrc : 1 ≤ src) : outSide num den src % 2 = 0 ∧
    2 ≤ outSide num den src ∧ outSide num den src ≤ (src + 1) / 2 * 2 := by
  have hle : scaled num den (max src 2) ≤ max src 2 := scaled_le
  rw [outSide, evenDown]
  omega

theorem outSide_le {src bound : Nat} (hbound : 2 ≤ bound)
    (h : scaled num den (max src 2) ≤ bound) : outSide num den src ≤ bound :=
  max_le (Nat.le_trans evenDown_le h) hbound

theorem outSide_ratio {src : Nat} (hsrc : 1 ≤ src) (hnum : 0 < num) (hlt : num < den) :
    outSide num den src * den < src * num + 2 * den ∧
      src * num < outSide num den src * den + 2 * den := by
  obtain ⟨q, hq⟩ : ∃ q, q = max src 2 * num / den := ⟨_, rfl⟩
  have hout : outSide num den src = max (q - q % 2) 2 := by
    rw [outSide, scaled, if_neg (by omega), ← hq, evenDown]
  have hfloor : q * den ≤ max src 2 * num := hq ▸ Nat.div_mul_le_self _ _
  have hceil : max src 2 * num < (q + 1) * den := by
    rw [hq, Nat.mul_comm _ den]
    exact Nat.lt_mul_div_succ _ (by omega)
  have hpos : 0 < src * num := Nat.mul_pos hsrc hnum
  constructor
  · rcases Nat.lt_or_ge q 3 with hsmall | hlarge
    · rw [hout, show max (q - q % 2) 2 = 2 by omega]
      omega
    · -- A source of one pixel would come out as two.
      have htwo : 2 ≤ src := by
        by_contra hone
        have hmax : max src 2 = 2 := by omega
        have hq3 : 3 * den ≤ q * den := Nat.mul_le_mul_right den hlarge
        rw [hmax] at hfloor
        omega
      have hle : outSide num den src * den ≤ q * den :=
        Nat.mul_le_mul_right den (by rw [hout]; omega)
      rw [Nat.max_eq_left htwo] at hfloor
      omega
  · have hle : src * num ≤ max src 2 * num := Nat.mul_le_mul_right num (Nat.le_max_left src 2)
    have hstep : (q + 1) * den ≤ (outSide num den src + 2) * den :=
      Nat.mul_le_mul_right den (by rw [hout]; omega)
    rw [Nat.add_mul (outSide num den src)] at hstep
    omega

end Sizes

variable {srcW srcH maxW maxH dstW dstH : UInt32}

theorem sourceEncodeSize_eq : ∃ num den,
    scale (max (max srcW.toNat 2) (max srcH.toNat 2)) (min (max srcW.toNat 2) (max srcH.toNat 2))
      (max maxW.toNat maxH.toNat) (min maxW.toNat maxH.toNat) = some (num, den) ∧
    sourceEncodeSize srcW srcH maxW maxH =
      some (outSide num den srcW.toNat, outSide num den srcH.toNat) := by
  have hw := srcW.toNat_lt
  have hh := srcH.toNat_lt
  obtain ⟨num, den, hscale, hden, hnum, hden32, -⟩ := @scale_spec
    (max (max srcW.toNat 2) (max srcH.toNat 2)) (min (max srcW.toNat 2) (max srcH.toNat 2))
    (max maxW.toNat maxH.toNat) (min maxW.toNat maxH.toNat) (by omega) (by omega) (by omega)
    (max_lt maxW.toNat_lt maxH.toNat_lt) (by omega)
  refine ⟨num, den, hscale, ?_⟩
  rw [sourceEncodeSize, hscale, Option.bind_eq_bind, Option.bind_some]
  have hside (src : UInt32) (hsrc : src.toNat < 2 ^ 32) :
      max (evenDown (scaled num den (max src.toNat 2) % 2 ^ 32)) 2 = outSide num den src.toNat := by
    have hle : scaled num den (max src.toNat 2) ≤ max src.toNat 2 := scaled_le
    rw [outSide, Nat.mod_eq_of_lt (by omega)]
  rw [← hside srcW hw, ← hside srcH hh]
  dsimp only
  rw [scaled, scaled]
  split
  · rfl
  · rw [checkedMul_of_half (v := 32) (by omega) hnum, checkedMul_of_half (v := 32) (by omega) hnum]
    simp only [Option.bind_eq_bind, Option.bind_some]
    rw [checkedDiv_of_pos hden, checkedDiv_of_pos hden]
    rfl

theorem sourceEncodeSize_spec (hw : 1 ≤ srcW) (hh : 1 ≤ srcH)
    (hceiling : maxW = 0 ∨ maxH = 0 ∨ 2 ≤ maxW ∧ 2 ≤ maxH) :
    ∃ w h, sourceEncodeSize srcW srcH maxW maxH = some (w, h) ∧
      LegalSize srcW.toNat srcH.toNat maxW.toNat maxH.toNat w h := by
  have hw' : 1 ≤ srcW.toNat := hw
  have hh' : 1 ≤ srcH.toNat := hh
  have hw32 := srcW.toNat_lt
  have hh32 := srcH.toNat_lt
  have hceiling' : maxW.toNat = 0 ∨ maxH.toNat = 0 ∨ 2 ≤ maxW.toNat ∧ 2 ≤ maxH.toNat :=
    hceiling.imp (congrArg UInt32.toNat) (.imp (congrArg UInt32.toNat) id)
  obtain ⟨num, den, hscale, heq⟩ := @sourceEncodeSize_eq srcW srcH maxW maxH
  obtain ⟨num', den', hscale', hden, -, -, hfits, hnone⟩ := @scale_spec
    (max (max srcW.toNat 2) (max srcH.toNat 2)) (min (max srcW.toNat 2) (max srcH.toNat 2))
    (max maxW.toNat maxH.toNat) (min maxW.toNat maxH.toNat) (by omega) (by omega) (by omega)
    (max_lt maxW.toNat_lt maxH.toNat_lt) (by omega)
  rw [hscale, Option.some.injEq, Prod.mk.injEq] at hscale'
  obtain ⟨rfl, rfl⟩ := hscale'
  obtain ⟨hevenW, htwoW, hleW⟩ := @outSide_spec num den srcW.toNat hw'
  obtain ⟨hevenH, htwoH, hleH⟩ := @outSide_spec num den srcH.toNat hh'
  refine ⟨_, _, heq, ⟨hevenW, hevenH⟩, ⟨htwoW, htwoH⟩, fun hmaxW hmaxH => ?_, ⟨hleW, hleH⟩, ?_⟩
  · obtain ⟨-, hlong, hshort⟩ := hfits (by omega)
    split
    · next hwide =>
      rw [Nat.max_eq_left (by omega : max srcH.toNat 2 ≤ max srcW.toNat 2)] at hlong
      rw [Nat.min_eq_right (by omega : max srcH.toNat 2 ≤ max srcW.toNat 2)] at hshort
      exact ⟨outSide_le (by omega) hlong, outSide_le (by omega) hshort⟩
    · next htall =>
      rw [Nat.max_eq_right (by omega : max srcW.toNat 2 ≤ max srcH.toNat 2)] at hlong
      rw [Nat.min_eq_left (by omega : max srcW.toNat 2 ≤ max srcH.toNat 2)] at hshort
      exact ⟨outSide_le (by omega) hshort, outSide_le (by omega) hlong⟩
  · rcases Nat.lt_or_ge num den with hlt | hge
    · have hnum : 0 < num := by
        by_cases hzero : min maxW.toNat maxH.toNat = 0
        · rw [(hnone hzero).1]
          exact Nat.one_pos
        · exact (hfits (by omega)).1
      obtain ⟨hw₁, hw₂⟩ := outSide_ratio hw' hnum hlt
      obtain ⟨hh₁, hh₂⟩ := outSide_ratio hh' hnum hlt
      exact ⟨num, den, hnum, hlt.le, hw₁, hw₂, hh₁, hh₂⟩
    · -- The source fits, at its own scale.
      refine ⟨1, 1, Nat.one_pos, Nat.le_refl 1, ?_⟩
      simp only [outSide, scaled, if_pos hge, evenDown]
      omega

/-! ## The rectangle -/

theorem fitSide_spec {size n : Nat} :
    fitSide size n ≤ size ∧ (fitSide size n = size ∨ fitSide size n % 2 = 0) := by
  rw [fitSide]
  split
  · rw [evenDown]
    omega
  · omega

theorem toNat_pos_of_ne_zero {n : UInt32} (h : n ≠ 0) : 0 < n.toNat :=
  Nat.pos_of_ne_zero fun hzero => h (UInt32.toNat_inj.1 hzero)

theorem isSome_fittedSides (hw : 0 < srcW.toNat) (hh : 0 < srcH.toNat) :
    (fittedSides srcW.toNat srcH.toNat dstW.toNat dstH.toNat).isSome := by
  have hsw := srcW.toNat_lt
  have hsh := srcH.toNat_lt
  have hdw := dstW.toNat_lt
  have hdh := dstH.toNat_lt
  have hprod {a b : Nat} (ha : a < 2 ^ 32) (hb : b < 2 ^ 32) :
      a * b ≤ (2 ^ 32 - 1) * (2 ^ 32 - 1) := Nat.mul_le_mul (by omega) (by omega)
  have ha := hprod hsw hdh
  have hb := hprod hsh hdw
  rw [fittedSides, checkedMul_of_lt (by omega), Option.bind_eq_bind, Option.bind_some,
    checkedMul_of_lt (by omega), Option.bind_some]
  split
  · rw [checkedAdd_of_lt (by omega), Option.bind_some, checkedDiv_of_pos hw]
    rfl
  · rw [checkedAdd_of_lt (by omega), Option.bind_some, checkedDiv_of_pos hh]
    rfl

theorem centredEnds_eq {size n : Nat} (h32 : size < 2 ^ 32) :
    centredEnds size (fitSide size n) = some
      (wrapInt 32 (evenDown ((size - fitSide size n) / 2)),
        wrapInt 32 (evenDown ((size - fitSide size n) / 2) + fitSide size n)) := by
  have hle := (@fitSide_spec size n).1
  have heven : evenDown ((size - fitSide size n) / 2) ≤ (size - fitSide size n) / 2 := evenDown_le
  rw [centredEnds, checkedSub_of_le hle, Option.bind_eq_bind, Option.bind_some]
  dsimp only
  rw [checkedAdd_of_lt (by omega)]
  rfl

theorem centred_fitSide {size n : Nat} (h31 : size < 2 ^ 31) :
    Centred size (wrapInt 32 (evenDown ((size - fitSide size n) / 2)))
      (wrapInt 32 (evenDown ((size - fitSide size n) / 2) + fitSide size n)) := by
  obtain ⟨hle, heven⟩ := @fitSide_spec size n
  generalize fitSide size n = k at *
  have hstart : evenDown ((size - k) / 2) ≤ (size - k) / 2 := evenDown_le
  rw [wrapInt_of_lt (by omega : evenDown ((size - k) / 2) < 2 ^ 31),
    wrapInt_of_lt (by omega : evenDown ((size - k) / 2) + k < 2 ^ 31)]
  rw [evenDown] at *
  exact ⟨by omega, by omega, by omega⟩

theorem centred_whole {size : Nat} : Centred size 0 size :=
  ⟨by omega, ⟨rfl, .inl rfl⟩, by omega⟩

/-- There is a rectangle, in its target if that has signed 32-bit edges. -/
theorem aspectFitRect_spec (srcW srcH dstW dstH : UInt32) :
    ∃ r, aspectFitRect srcW srcH dstW dstH = some r ∧
      (dstW.toNat < 2 ^ 31 → Centred dstW.toNat r.left r.right) ∧
      (dstH.toNat < 2 ^ 31 → Centred dstH.toNat r.top r.bottom) := by
  rw [aspectFitRect]
  split
  · refine ⟨_, rfl, fun hw => ?_, fun hh => ?_⟩
    · rw [wrapInt_of_lt hw]
      exact centred_whole
    · rw [wrapInt_of_lt hh]
      exact centred_whole
  · next hne =>
    simp only [not_or] at hne
    obtain ⟨sides, hsides⟩ := Option.isSome_iff_exists.1 (@isSome_fittedSides srcW srcH dstW dstH
      (toNat_pos_of_ne_zero hne.1) (toNat_pos_of_ne_zero hne.2.1))
    rw [hsides, Option.bind_eq_bind, Option.bind_some, centredEnds_eq dstW.toNat_lt,
      Option.bind_eq_bind, Option.bind_some, centredEnds_eq dstH.toNat_lt]
    exact ⟨_, rfl, centred_fitSide, centred_fitSide⟩

/-- A legal size of every source of a pixel or more, under ceilings from two pixels on, or none; a
    centred rectangle in targets with signed 32-bit edges. Nothing overflows, whatever the target.
    -/
theorem encodeSizing_legal :
    (∀ srcW srcH maxW maxH : UInt32, 1 ≤ srcW → 1 ≤ srcH →
      maxW = 0 ∨ maxH = 0 ∨ 2 ≤ maxW ∧ 2 ≤ maxH →
        ∃ w h, sourceEncodeSize srcW srcH maxW maxH = some (w, h) ∧
          LegalSize srcW.toNat srcH.toNat maxW.toNat maxH.toNat w h) ∧
    ∀ srcW srcH dstW dstH : UInt32, ∃ r, aspectFitRect srcW srcH dstW dstH = some r ∧
      (dstW.toNat < 2 ^ 31 → Centred dstW.toNat r.left r.right) ∧
      (dstH.toNat < 2 ^ 31 → Centred dstH.toNat r.top r.bottom) :=
  ⟨fun _ _ _ _ hw hh hceiling => sourceEncodeSize_spec hw hh hceiling, aspectFitRect_spec⟩

theorem encodeSizing_legal_fullHd :
    ∃ w h, sourceEncodeSize 3840 1600 2560 1440 = some (w, h) ∧ LegalSize 3840 1600 2560 1440 w h :=
  encodeSizing_legal.1 3840 1600 2560 1440 (by decide) (by decide) (by decide)

/-- A size above a one-pixel ceiling, and a rectangle outside a target too large for signed edges.
    -/
theorem not_encodeSizing_legal :
    (¬ ∀ srcW srcH maxW maxH : UInt32, 1 ≤ srcW → 1 ≤ srcH →
      ∃ w h, sourceEncodeSize srcW srcH maxW maxH = some (w, h) ∧
        LegalSize srcW.toNat srcH.toNat maxW.toNat maxH.toNat w h) ∧
    ¬ ∀ srcW srcH dstW dstH : UInt32, ∃ r, aspectFitRect srcW srcH dstW dstH = some r ∧
      Centred dstW.toNat r.left r.right ∧ Centred dstH.toNat r.top r.bottom := by
  constructor
  · intro h
    obtain ⟨w, h, -, hlegal⟩ := h 100 100 1 1 (by decide) (by decide)
    have htwo := hlegal.two_le.1
    have hinside := hlegal.inside (by decide) (by decide)
    rw [if_pos (by decide)] at hinside
    exact absurd (Nat.le_trans htwo hinside.1) (by decide)
  · intro h
    obtain ⟨r, hr, hw, -⟩ := h 0x80000000 1 0x80000000 1
    have heq : aspectFitRect 0x80000000 1 0x80000000 1 = some ⟨0, 0, -0x80000000, 1⟩ := by
      decide +kernel
    rw [heq, Option.some.injEq] at hr
    subst hr
    exact absurd hw.inside.2.1 (by decide)

end Decibell.EncodeSizing
