import Mathlib.Data.List.Forall2
import Teller.Bearer
import Teller.Proofs.Fields

/-! Headers that bring a token. They are two words, of which the first is the name of the scheme, in capitals or not;
all others are turned away before anybody looks at a token. Of those who bring one, whoever verifies it lets pass just
the ones that come in a permitted role. -/
namespace Teller.Bearer
open Blank (Blanks Word Spaced)

def SameLetter (a b : Char) : Prop :=
  a = b ∨ (65 ≤ a.toNat ∧ a.toNat ≤ 90 ∧ b.toNat = a.toNat + 32) ∨
    (65 ≤ b.toNat ∧ b.toNat ≤ 90 ∧ a.toNat = b.toNat + 32)

def SameName (a b : String) : Prop := List.Forall₂ SameLetter a.toList b.toList

def Brings (header : Option String) (token : String) : Prop :=
  ∃ (value kind : String) (before between behind : List Char), header = some value ∧
    value.toList = before ++ kind.toList ++ between ++ token.toList ++ behind ∧
    Blanks before ∧ SameName kind scheme ∧ Blanks between ∧ between ≠ [] ∧ Word token.toList ∧ Blanks behind

inductive Heard : Option String → Except AccessError String → Prop where
  | absent : Heard none (.error .noHeader)
  | malformed {value : String} {words : List String} (laid : Spaced value.toList (words.map String.toList))
      (other : words.length ≠ 2) : Heard (some value) (.error .malformed)
  | foreign {value kind token : String} (laid : Spaced value.toList [kind.toList, token.toList])
      (other : ¬ SameName kind scheme) : Heard (some value) (.error (.scheme kind))
  | bearer {value kind token : String} (laid : Spaced value.toList [kind.toList, token.toList])
      (same : SameName kind scheme) : Heard (some value) (.ok token)

def pass {σ : Type} (verify : String → σ → Except TokenError Claims × σ) (roles : List Role) (header : Option String)
    (s : σ) : Except AccessError Claims × σ :=
  match Bearer.token header with
  | .error cause => (.error cause, s)
  | .ok token =>
      let (found, s) := verify token s
      (match found with
        | .error cause => .error (.token cause)
        | .ok claims => if roles.contains claims.role then .ok claims else .error (.role claims.role), s)

variable {header : Option String} {value kind : String} {outcome : Except AccessError String}

theorem lowerToNat (c : Char) :
    c.toLower.toNat = if 65 ≤ c.toNat ∧ c.toNat ≤ 90 then c.toNat + 32 else c.toNat := by
  have capital : c.val ≥ 'A'.val ∧ c.val ≤ 'Z'.val ↔ 65 ≤ c.toNat ∧ c.toNat ≤ 90 := by
    simp [UInt32.le_iff_toNat_le]
  unfold Char.toLower
  split
  · rename_i here
    obtain ⟨low, high⟩ := capital.mp here
    have room : c.toNat + 32 < 2 ^ 32 := by omega
    rw [if_pos ⟨low, high⟩]
    exact (UInt32.toNat_add c.val 32).trans (Nat.mod_eq_of_lt room)
  · rename_i other
    rw [if_neg fun here => other (capital.mpr here)]

theorem sameLetterIff (a b : Char) : SameLetter a b ↔ a.toLower = b.toLower := by
  rw [← Char.toNat_inj, lowerToNat, lowerToNat, SameLetter, ← Char.toNat_inj]
  split <;> split <;> omega

theorem sameNameIff (a b : String) : SameName a b ↔ a.map Char.toLower = b.map Char.toLower := by
  have letters : SameLetter = fun a b => a.toLower = b.toLower := by
    funext a b
    exact propext (sameLetterIff a b)
  rw [SameName, letters, ← String.toList_inj, String.toList_map, String.toList_map, ← List.forall₂_eq_eq_eq,
    List.forall₂_map_left_iff, List.forall₂_map_right_iff]

theorem sameSchemeIff : SameName kind scheme ↔ kind.map Char.toLower = scheme := by
  have small : scheme.map Char.toLower = scheme := by decide +kernel
  rw [sameNameIff, small]

theorem sameSchemeWord (same : SameName kind scheme) : Word kind.toList := by
  have letters : kind.toList.map Char.toLower = scheme.toList := by
    rw [← String.toList_map, sameSchemeIff.mp same]
  have small : ∀ c ∈ scheme.toList, 97 ≤ c.toNat ∧ c.toNat ≤ 122 := by simp [scheme]
  constructor
  · intro empty
    rw [empty] at letters
    exact absurd letters (by decide +kernel)
  · intro c mem
    have letter : 97 ≤ c.toLower.toNat ∧ c.toLower.toNat ≤ 122 := small _ (letters ▸ List.mem_map_of_mem mem)
    obtain ⟨low, high⟩ : 33 ≤ c.toNat ∧ c.toNat ≤ 126 := by
      rw [lowerToNat] at letter
      split at letter <;> omega
    exact Blank.solidVisible low high

theorem tokenTwo {token : String} (laid : Spaced value.toList [kind.toList, token.toList]) :
    Bearer.token (some value) = if kind.map Char.toLower = scheme then .ok token else .error (.scheme kind) := by
  have two : Blank.fields value = [kind, token] := Blank.fieldsIff.mpr laid
  simp only [Bearer.token, two]

theorem heardToken (heard : Heard header outcome) : Bearer.token header = outcome := by
  cases heard with
  | absent => rfl
  | malformed laid other =>
    simp only [Bearer.token, Blank.fieldsIff.mpr laid]
    split
    · exact absurd rfl other
    · rfl
  | foreign laid other => exact (tokenTwo laid).trans (if_neg fun same => other (sameSchemeIff.mpr same))
  | bearer laid same => exact (tokenTwo laid).trans (if_pos (sameSchemeIff.mp same))

theorem hasHeard (header : Option String) : ∃ outcome, Heard header outcome := by
  cases header with
  | none => exact ⟨_, .absent⟩
  | some value =>
    have laid : Spaced value.toList ((Blank.fields value).map String.toList) := Blank.fieldsIff.mp rfl
    by_cases two : (Blank.fields value).length = 2
    · obtain ⟨kind, token, pair⟩ := List.length_eq_two.mp two
      rw [pair] at laid
      by_cases same : SameName kind scheme
      · exact ⟨_, .bearer laid same⟩
      · exact ⟨_, .foreign laid same⟩
    · exact ⟨_, .malformed laid two⟩

theorem tokenIff : Bearer.token header = outcome ↔ Heard header outcome := by
  refine ⟨?_, heardToken⟩
  rintro rfl
  obtain ⟨outcome, heard⟩ := hasHeard header
  rwa [heardToken heard]

theorem bringsIff {token : String} : Bearer.token header = .ok token ↔ Brings header token := by
  rw [tokenIff]
  constructor
  · intro heard
    cases heard with
    | @bearer value kind token laid same =>
      obtain ⟨before, between, behind, split, all, all', parted, all'', _, own⟩ := Blank.spacedTwo.mp laid
      exact ⟨value, kind, before, between, behind, rfl, split, all, same, all', parted, own, all''⟩
  · rintro ⟨value, kind, before, between, behind, rfl, split, all, same, all', parted, own, all''⟩
    have word := sameSchemeWord same
    exact .bearer (Blank.spacedTwo.mpr ⟨before, between, behind, split, all, all', parted, all'', word, own⟩) same

theorem passIssuer (issuer : Issuer) (now : Moment) (roles : List Role) (header : Option String) :
    pass (fun token (_ : Unit) => (issuer.verify now token, ())) roles header () =
      (authorize issuer now roles header, ()) := by
  unfold pass authorize
  cases Bearer.token header with
  | error cause => rfl
  | ok token =>
    simp only [bind, Except.bind]
    cases issuer.verify now token with
    | error cause => rfl
    | ok claims =>
      simp only [Except.mapError]
      split <;> rfl

section
variable {σ : Type} {verify : String → σ → Except TokenError Claims × σ} {roles : List Role} {s : σ}

theorem passRefused {cause : AccessError} (refused : Bearer.token header = .error cause) :
    pass verify roles header s = (.error cause, s) := by
  rw [pass, refused]

theorem passIff {claims : Claims} : (pass verify roles header s).1 = .ok claims ↔
    ∃ token, Brings header token ∧ (verify token s).1 = .ok claims ∧ claims.role ∈ roles := by
  simp only [← bringsIff]
  cases brought : Bearer.token header with
  | error cause =>
    rw [passRefused brought]
    exact iff_of_false nofun nofun
  | ok token =>
    simp only [pass, brought, Except.ok.injEq, exists_eq_left']
    rcases verify token s with ⟨found, left⟩
    cases found with
    | error cause => exact iff_of_false nofun nofun
    | ok told =>
      simp only [List.contains_iff_mem, Except.ok.injEq]
      split
      · rename_i permitted
        rw [Except.ok.injEq]
        exact ⟨fun same => ⟨same, same ▸ permitted⟩, And.left⟩
      · rename_i other
        refine iff_of_false nofun ?_
        rintro ⟨rfl, permitted⟩
        exact other permitted

end

/-- A token is brought exactly by a header of two words of which the first names the scheme, in capitals or not. A
header that is missing, or has more words or fewer, or names another scheme is turned away as just that, whoever
verifies tokens, by whatever clock, and whoever may pass. The holder of a token may pass exactly if it verifies and the
role that it then tells is permitted. -/
theorem headerGrammar (header : Option String) :
    (∀ token, Bearer.token header = .ok token ↔ Brings header token) ∧
    (∀ outcome, Bearer.token header = outcome ↔ Heard header outcome) ∧
    (∀ (σ : Type) (verify : String → σ → Except TokenError Claims × σ) (roles : List Role) (s : σ),
      (∀ claims, (pass verify roles header s).1 = .ok claims ↔
        ∃ token, Brings header token ∧ (verify token s).1 = .ok claims ∧ claims.role ∈ roles) ∧
      ∀ cause, Bearer.token header = .error cause → pass verify roles header s = (.error cause, s)) ∧
    ∀ (issuer : Issuer) (now : Moment) (roles : List Role),
      (∀ claims, authorize issuer now roles header = .ok claims ↔
        ∃ token, Brings header token ∧ issuer.verify now token = .ok claims ∧ claims.role ∈ roles) ∧
      ∀ cause, Bearer.token header = .error cause → authorize issuer now roles header = .error cause := by
  refine ⟨fun token => bringsIff, fun outcome => tokenIff,
    fun σ verify roles s => ⟨fun claims => passIff, fun cause refused => passRefused refused⟩,
    fun issuer now roles => ?_⟩
  have own := congrArg Prod.fst (passIssuer issuer now roles header)
  dsimp only at own
  rw [← own]
  exact ⟨fun claims => passIff, fun cause refused => congrArg Prod.fst (passRefused refused)⟩

example : Bearer.token (some "\t BeArEr\n x.y ") = .ok "x.y" ∧ Bearer.token (some "Bearer x y") = .error .malformed ∧
    Bearer.token (some "Basic x") = .error (.scheme "Basic") := by
  decide +kernel

end Teller.Bearer
