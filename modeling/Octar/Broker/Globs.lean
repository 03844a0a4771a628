import Octar.Lib.Glob
import Octar.Broker.Registry
import Octar.Protocol.Codec

namespace Octar

open Go

def matchGlobRec : Bytes → Bytes → Bool
  | [], name => name.isEmpty
  | p :: pattern, name =>
    if p = 42 then
      if (pattern.dropWhile (· = 42)).isEmpty then true
      else name.tails.any fun rest => matchGlobRec (pattern.dropWhile (· = 42)) rest
    else if p = 63 then
      match name with
      | [] => false
      | _ :: name => matchGlobRec pattern name
    else
      match name with
      | [] => false
      | n :: name => if p ≠ n then false else matchGlobRec pattern name
termination_by pattern => pattern.length
decreasing_by
  all_goals simp only [List.length_cons]
  · exact Nat.lt_succ_of_le (List.dropWhile_sublist _).length_le
  · omega
  · omega

def Stands (p : UInt8) (piece : Bytes) : Prop :=
  if p = 42 then True else if p = 63 then piece.length = 1 else piece = [p]

theorem stands_star (piece : Bytes) : Stands 42 piece := trivial

theorem stands_iff {p : UInt8} (hp : p ≠ 42) (piece : Bytes) :
    Stands p piece ↔ ∃ b, piece = [b] ∧ (p = 63 ∨ p = b) := by
  rw [Stands, if_neg hp]
  split
  · rename_i hmark
    rw [List.length_eq_one_iff]
    simp [hmark]
  · rename_i hmark
    constructor
    · exact fun heq => ⟨p, heq, .inr rfl⟩
    · rintro ⟨b, rfl, hb⟩
      rw [hb.resolve_left hmark]

theorem splits_dropWhile (pattern name : Bytes) :
    Splits Stands (42 :: pattern.dropWhile (· = 42)) name ↔ Splits Stands (42 :: pattern) name := by
  induction pattern with
  | nil => rfl
  | cons p pattern ih =>
    by_cases hp : p = 42
    · rw [hp, List.dropWhile_cons_of_pos rfl, ih, Splits.cons_any_any stands_star]
    · rw [List.dropWhile_cons_of_neg (by simpa using hp)]

theorem splits_star (name : Bytes) : Splits Stands [42] name :=
  Splits.cons_iff.mpr ⟨name, [], List.append_nil name, stands_star name, Splits.nil_iff.mpr rfl⟩

theorem not_splits_nil {p : UInt8} (hp : p ≠ 42) (pattern : Bytes) :
    ¬ Splits Stands (p :: pattern) [] := by
  rw [Splits.cons_one_iff (stands_iff hp)]
  rintro ⟨b, rest, heq, -⟩
  cases heq

theorem splits_cons {p : UInt8} (hp : p ≠ 42) (pattern : Bytes) (n : UInt8) (name : Bytes) :
    Splits Stands (p :: pattern) (n :: name) ↔ (p = 63 ∨ p = n) ∧ Splits Stands pattern name := by
  rw [Splits.cons_one_iff (stands_iff hp)]
  constructor
  · rintro ⟨b, rest, heq, hb, hrest⟩
    cases heq
    exact ⟨hb, hrest⟩
  · exact fun ⟨hn, hrest⟩ => ⟨n, name, rfl, hn, hrest⟩

theorem matchGlobRec_iff (pattern name : Bytes) :
    matchGlobRec pattern name = true ↔ Splits Stands pattern name := by
  fun_induction matchGlobRec pattern name with
  | case1 name => rw [List.isEmpty_iff, Splits.nil_iff]
  | case2 pattern name hempty =>
    rw [List.isEmpty_iff] at hempty
    rw [← splits_dropWhile, hempty]
    exact iff_of_true rfl (splits_star name)
  | case3 pattern name hempty ih =>
    rw [← splits_dropWhile, Splits.cons_any_iff stands_star, List.any_eq_true]
    simp only [ih]
  | case4 pattern hstar => exact iff_of_false Bool.false_ne_true (not_splits_nil hstar pattern)
  | case5 pattern n name hstar ih => rw [ih, splits_cons hstar, and_iff_right (.inl rfl)]
  | case6 p pattern hstar hmark =>
    exact iff_of_false Bool.false_ne_true (not_splits_nil hstar pattern)
  | case7 p pattern hstar hmark n name hne =>
    rw [splits_cons hstar]
    exact iff_of_false Bool.false_ne_true fun h => h.1.elim hmark hne
  | case8 p pattern hstar hmark n name heq ih =>
    rw [ih, splits_cons hstar, and_iff_right (.inr (not_not.mp heq))]

theorem matchGlob_iff (pattern name : Bytes) :
    matchGlob pattern name = true ↔ Splits Stands pattern name := by
  induction pattern generalizing name with
  | nil => rw [matchGlob, List.isEmpty_iff, Splits.nil_iff]
  | cons p pattern ih =>
    unfold matchGlob
    by_cases hp : p = 42
    · subst hp
      rw [if_pos rfl, Splits.cons_any_iff stands_star, Bool.or_eq_true, List.any_eq_true]
      simp only [ih]
      refine or_iff_right_of_imp ?_
      intro hempty
      rw [List.isEmpty_iff.mp hempty]
      exact ⟨[], by simp, Splits.nil_iff.mpr rfl⟩
    · rw [if_neg hp]
      cases name with
      | nil => exact iff_of_false Bool.false_ne_true (not_splits_nil hp pattern)
      | cons n name =>
        rw [splits_cons hp]
        simp only [Bool.and_eq_true, Bool.or_eq_true, beq_iff_eq, ih]

/-- `matchGlob` is the loop of `matchGlobRec`, and means what its comment in the source says. -/
theorem matchGlob_means (pattern name : Bytes) :
    matchGlob pattern name = matchGlobRec pattern name ∧
    (matchGlobRec pattern name = true ↔ Splits Stands pattern name) := by
  refine ⟨?_, matchGlobRec_iff pattern name⟩
  rw [Bool.eq_iff_iff, matchGlob_iff, matchGlobRec_iff]

def StandsInPath (p : UInt8) (piece : Bytes) : Prop := if p = 42 then 47 ∉ piece else piece = [p]

instance (p : UInt8) (piece : Bytes) : Decidable (StandsInPath p piece) :=
  inferInstanceAs (Decidable (if p = 42 then 47 ∉ piece else piece = [p]))

def PathMatch.Documented [PathMatch] : Prop :=
  ∀ pattern name : Bytes, (∀ b ∈ pattern, b ∉ str "?[\\") →
  (PathMatch.pathMatch pattern name = true ↔ Splits StandsInPath pattern name)

@[reducible] def documentedMatch : PathMatch :=
  ⟨fun pattern name => decide (Splits StandsInPath pattern name)⟩

theorem documentedMatch_documented : @PathMatch.Documented documentedMatch :=
  fun _ _ _ => decide_eq_true_iff

theorem count_le_of_stands (p : UInt8) (piece : Bytes) (h : Stands p piece) :
    [p].count 47 ≤ piece.count 47 := by
  by_cases hp : p = 42
  · subst hp
    exact Nat.zero_le _
  · obtain ⟨b, rfl, rfl | rfl⟩ := (stands_iff hp piece).mp h
    · exact Nat.zero_le _
    · exact Nat.le_refl _

theorem standsInPath_iff {p : UInt8} (hp : p ∉ str "?[\\") (piece : Bytes) :
    StandsInPath p piece ↔ Stands p piece ∧ [p].count 47 = piece.count 47 := by
  rw [StandsInPath, Stands]
  by_cases hstar : p = 42
  · subst hstar
    rw [if_pos rfl, if_pos rfl, true_and, eq_comm]
    exact List.count_eq_zero.symm
  · have hmark : p ≠ 63 := fun heq => hp (heq ▸ by decide)
    rw [if_neg hstar, if_neg hstar, if_neg hmark]
    exact ⟨fun heq => ⟨heq, heq ▸ rfl⟩, And.left⟩

theorem splits_self (pattern : Bytes) : Splits Stands pattern pattern := by
  induction pattern with
  | nil => exact Splits.nil_iff.mpr rfl
  | cons p pattern ih =>
    refine Splits.cons_iff.mpr ⟨[p], pattern, rfl, ?_, ih⟩
    by_cases hp : p = 42
    · subst hp
      exact stands_star _
    · exact (stands_iff hp [p]).mpr ⟨p, rfl, .inr rfl⟩

theorem not_mem_of_isValidIdent {s : Bytes} (h : isValidIdent s = true) :
    ∀ b ∈ s, b ∉ str "?[\\" := by
  intro b hb hmem
  rw [isValidIdent, Bool.and_eq_true, List.all_eq_true] at h
  have hb := h.2 b hb
  rcases hmem with _ | ⟨_, _ | ⟨_, _ | ⟨_, hnil⟩⟩⟩
  · exact absurd hb (by decide)
  · exact absurd hb (by decide)
  · exact absurd hb (by decide)
  · cases hnil

/-- A config applies to the groups that a subscription with its key receives, if they have as many
`/`. -/
theorem config_matches_iff [PathMatch] (hdoc : PathMatch.Documented) (c : GroupConfig)
    (hc : isValidIdent c.key = true) (key : Bytes) :
    c.matchesKey key = true ↔ matchGlob c.key key = true ∧ c.key.count 47 = key.count 47 := by
  have hbytes := not_mem_of_isValidIdent hc
  have hpath : PathMatch.pathMatch c.key key = true ↔ Splits Stands c.key key ∧
      c.key.count 47 = key.count 47 := by
    rw [hdoc c.key key hbytes, ← Splits.count_eq_iff count_le_of_stands]
    exact Splits.congr fun p hp piece => standsInPath_iff (hbytes p hp) piece
  rw [GroupConfig.matchesKey, Bool.or_eq_true, hpath, matchGlob_iff, beq_iff_eq]
  refine or_iff_right_of_imp ?_
  intro heq
  rw [heq]
  exact ⟨splits_self key, rfl⟩

theorem config_matches_iff_region : isValidIdent (str "region/*") = true ∧
    @GroupConfig.matchesKey documentedMatch (defaultGroupConfig (str "region/*"))
      (str "region/us-east") = true :=
  ⟨by decide, (@config_matches_iff documentedMatch documentedMatch_documented
    (defaultGroupConfig (str "region/*")) (by decide) (str "region/us-east")).mpr (by decide)⟩

/-- A subscription to `*` receives what no config with this key applies to. -/
theorem config_star_skips_slash : isValidIdent (str "*") = true ∧ isValidIdent (str "a/b") = true ∧
    @PathMatch.Documented documentedMatch ∧ matchGlob (str "*") (str "a/b") = true ∧
    @GroupConfig.matchesKey documentedMatch (defaultGroupConfig (str "*")) (str "a/b") = false :=
  ⟨by decide, by decide, documentedMatch_documented, by decide, by decide⟩

end Octar
