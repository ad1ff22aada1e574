import Mathlib.LinearAlgebra.Matrix.PosDef

/-! # Linear corrections of an estimate

An estimate with covariance `P` is corrected by `K` times the difference between a measurement and
its expectation, where `H` measures with the covariance `R`. Of all gains, the one that solves
`K * S = P * Hᵀ` for the covariance `S` of that difference leaves the smallest covariance. -/

namespace CommonLib.LinearEstimate

open Matrix

variable {m n T : Type*} [Fintype m] [Fintype n] [DecidableEq n]

section

variable [CommRing T]

/-- The covariance of the difference between a measurement and its expectation. -/
def innovation (H : Matrix m n T) (P : Matrix n n T) (R : Matrix m m T) : Matrix m m T :=
  H * P * Hᵀ + R

/-- The covariance of the corrected estimate, whatever the gain is. -/
def corrected (H : Matrix m n T) (P : Matrix n n T) (R : Matrix m m T) (K : Matrix n m T) :
    Matrix n n T :=
  (1 - K * H) * P * (1 - K * H)ᵀ + K * R * Kᵀ

omit [Fintype m] [DecidableEq n] in
theorem isSymm_innovation (H : Matrix m n T) {P : Matrix n n T} {R : Matrix m m T}
    (hP : P.IsSymm) (hR : R.IsSymm) : (innovation H P R).IsSymm := by
  rw [IsSymm, innovation, transpose_add, transpose_mul, transpose_mul, transpose_transpose, hP.eq,
    hR.eq, Matrix.mul_assoc]

theorem corrected_eq (H : Matrix m n T) (P : Matrix n n T) (R : Matrix m m T) (K : Matrix n m T) :
    corrected H P R K =
      P - K * (H * P) - P * Hᵀ * Kᵀ + K * innovation H P R * Kᵀ := by
  simp only [corrected, innovation, transpose_sub, transpose_one, transpose_mul, Matrix.sub_mul,
    Matrix.mul_sub, Matrix.one_mul, Matrix.mul_one, Matrix.mul_add, Matrix.add_mul,
    Matrix.mul_assoc]
  abel

/-- How much worse any gain is than one that solves the equation. -/
theorem corrected_sub {H : Matrix m n T} {P : Matrix n n T} {R : Matrix m m T} {K : Matrix n m T}
    (hP : P.IsSymm) (hR : R.IsSymm) (hK : K * innovation H P R = P * Hᵀ) (L : Matrix n m T) :
    corrected H P R L - (P - K * H * P) = (L - K) * innovation H P R * (L - K)ᵀ := by
  have hSK : innovation H P R * Kᵀ = H * P := by
    have htranspose := congrArg transpose hK
    rw [transpose_mul, (isSymm_innovation H hP hR).eq, transpose_mul, transpose_transpose,
      hP.eq] at htranspose
    exact htranspose
  have hLSK : L * innovation H P R * Kᵀ = L * (H * P) := by
    rw [Matrix.mul_assoc, hSK]
  have hKSK : K * innovation H P R * Kᵀ = K * (H * P) := by
    rw [Matrix.mul_assoc, hSK]
  calc
    corrected H P R L - (P - K * H * P) =
        L * innovation H P R * Lᵀ - L * (H * P) - P * Hᵀ * Lᵀ + K * (H * P) := by
      rw [corrected_eq, Matrix.mul_assoc K]
      abel
    _ = L * innovation H P R * Lᵀ - L * innovation H P R * Kᵀ - K * innovation H P R * Lᵀ +
        K * innovation H P R * Kᵀ := by rw [hLSK, hKSK, hK]
    _ = (L - K) * innovation H P R * (L - K)ᵀ := by
      rw [transpose_sub, Matrix.sub_mul, Matrix.mul_sub, Matrix.sub_mul, Matrix.sub_mul]
      abel

/-- The short form of the covariance agrees with the long one for a gain that solves the
equation. -/
theorem corrected_of_gain {H : Matrix m n T} {P : Matrix n n T} {R : Matrix m m T}
    {K : Matrix n m T} (hP : P.IsSymm) (hR : R.IsSymm)
    (hK : K * innovation H P R = P * Hᵀ) : corrected H P R K = P - K * H * P := by
  have hsub := corrected_sub hP hR hK K
  rw [sub_self, Matrix.zero_mul, Matrix.zero_mul] at hsub
  exact sub_eq_zero.mp hsub

end

/-! ### Positive semidefinite covariances -/

section

variable [CommRing T] [PartialOrder T] [StarRing T] [TrivialStar T]

omit [Fintype m] [Fintype n] [DecidableEq n] in
theorem isSymm_of_posSemidef {P : Matrix n n T} (hP : P.PosSemidef) : P.IsSymm := by
  rw [IsSymm, ← conjTranspose_eq_transpose_of_trivial]
  exact hP.isHermitian

omit [DecidableEq n] in
theorem posSemidef_conj {P : Matrix n n T} (hP : P.PosSemidef) (A : Matrix m n T) :
    (A * P * Aᵀ).PosSemidef := by
  rw [← conjTranspose_eq_transpose_of_trivial]
  exact hP.mul_mul_conjTranspose_same A

variable [AddLeftMono T]

omit [DecidableEq n] in
theorem posSemidef_innovation {P : Matrix n n T} {R : Matrix m m T} (hP : P.PosSemidef)
    (hR : R.PosSemidef) (H : Matrix m n T) : (innovation H P R).PosSemidef :=
  (posSemidef_conj hP H).add hR

theorem posSemidef_corrected {P : Matrix n n T} {R : Matrix m m T} (hP : P.PosSemidef)
    (hR : R.PosSemidef) (H : Matrix m n T) (K : Matrix n m T) :
    (corrected H P R K).PosSemidef :=
  (posSemidef_conj hP (1 - K * H)).add (posSemidef_conj hR K)

/-- No gain leaves a smaller covariance than one that solves the equation. -/
theorem corrected_minimal {H : Matrix m n T} {P : Matrix n n T} {R : Matrix m m T}
    {K : Matrix n m T} (hP : P.PosSemidef) (hR : R.PosSemidef)
    (hK : K * innovation H P R = P * Hᵀ) (L : Matrix n m T) :
    (corrected H P R L - corrected H P R K).PosSemidef := by
  have hP' := isSymm_of_posSemidef hP
  have hR' := isSymm_of_posSemidef hR
  rw [corrected_of_gain hP' hR' hK, corrected_sub hP' hR' hK L]
  exact posSemidef_conj (posSemidef_innovation hP hR H) (L - K)

/-- Not to correct is a gain too, so the covariance does not grow. -/
theorem corrected_le {H : Matrix m n T} {P : Matrix n n T} {R : Matrix m m T} {K : Matrix n m T}
    (hP : P.PosSemidef) (hR : R.PosSemidef) (hK : K * innovation H P R = P * Hᵀ) :
    (P - corrected H P R K).PosSemidef := by
  have hzero : corrected H P R 0 = P := by simp [corrected]
  have hminimal := corrected_minimal hP hR hK 0
  rw [hzero] at hminimal
  exact hminimal

end

end CommonLib.LinearEstimate
