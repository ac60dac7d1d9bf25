import Mathlib.Logic.Function.Basic
import Monkey.Proofs.Syntax.Wording
import Monkey.Proofs.Token.Respelling

/-
  Consistent renaming.

  A `Renaming` gives every name another one, different names for
  different ones, and leaves the builtin functions their names.
  It goes for texts that are no names as well, which it keeps,
  and for the one kind of message that has a name in it.

  Main declarations:
    * `IsName`
    * `Renaming`
    * `Renaming.apply_injective`
    * `Renaming.message`
    * `Node.renamed`
    * `Node.renderWithin_renamed`
-/

namespace Monkey

------------------------------------------------------------
-- Names
------------------------------------------------------------

/- A text that is read as an identifier. -/
def IsName (text : String) : Prop :=
  text ≠ "" ∧ text.toList.all isLetter = true ∧
    TokenKind.ofWord text = .ident

instance (text : String) : Decidable (IsName text) :=
  inferInstanceAs (Decidable (_ ∧ _ ∧ _))

/- Another name for each name. -/
structure Renaming where
  name : String → String
  isName : ∀ x, IsName x → IsName (name x)
  injective :
    ∀ x y, IsName x → IsName y → name x = name y → x = y
  builtin : ∀ b : Builtin, name b.name = b.name

namespace Renaming

/- The same name for each name. -/
def same : Renaming where
  name := id
  isName _ h := h
  injective _ _ _ _ h := h
  builtin _ := rfl

variable (r : Renaming)

/- What becomes of any text in the place of a name. -/
def apply (text : String) : String :=
  if IsName text then r.name text else text

theorem apply_of_isName
    {text : String}
    (h : IsName text) :
    r.apply text = r.name text :=
  if_pos h

theorem apply_of_not_isName
    {text : String}
    (h : ¬ IsName text) :
    r.apply text = text :=
  if_neg h

/- What becomes of a name is a name, and of other texts none. -/
theorem isName_apply_iff
    (text : String) :
    IsName (r.apply text) ↔ IsName text := by
  by_cases hName : IsName text
  · rw [r.apply_of_isName hName]
    exact iff_of_true (r.isName text hName) hName
  · rw [r.apply_of_not_isName hName]

theorem apply_injective : Function.Injective r.apply := by
  intro x y h
  have hBoth : IsName x ↔ IsName y := by
    rw [← r.isName_apply_iff x, h, r.isName_apply_iff]
  by_cases hX : IsName x
  · have hY := hBoth.mp hX
    rw [r.apply_of_isName hX, r.apply_of_isName hY] at h
    exact r.injective x y hX hY h
  · have hY := mt hBoth.mpr hX
    rwa [r.apply_of_not_isName hX,
      r.apply_of_not_isName hY] at h

theorem apply_builtin
    (b : Builtin) :
    r.apply b.name = b.name := by
  by_cases hName : IsName b.name
  · rw [r.apply_of_isName hName, r.builtin]
  · exact r.apply_of_not_isName hName

theorem same_apply
    (text : String) :
    same.apply text = text := by
  unfold apply
  split <;> rfl

/- A text names a builtin function just if it did before. -/
theorem ofName?_apply
    (text : String) :
    Builtin.ofName? (r.apply text) = Builtin.ofName? text := by
  have hSame :
      ∀ b : Builtin,
        (b.name == r.apply text) = (b.name == text) := by
    intro b
    rw [Bool.eq_iff_iff, beq_iff_eq, beq_iff_eq]
    constructor
    · intro h
      rw [← r.apply_builtin b] at h
      exact r.apply_injective h
    · rintro rfl
      exact (r.apply_builtin b).symm
  unfold Builtin.ofName?
  simp only [hSame]

------------------------------------------------------------
-- Messages
------------------------------------------------------------

/- What the message about a name that is not found begins
   with. -/
def notFoundStart : List Char :=
  "identifier not found: ".toList

/- A message about another name, if it is about one. -/
def message (text : String) : String :=
  if notFoundStart <+: text.toList then
    (Complaint.notFound
      (r.apply
        (String.ofList
          (text.toList.drop notFoundStart.length)))).message
  else
    text

theorem message_notFound
    (name : String) :
    r.message (Complaint.notFound name).message =
      (Complaint.notFound (r.apply name)).message := by
  have hText :
      (Complaint.notFound name).message.toList =
        notFoundStart ++ name.toList :=
    String.toList_append
  unfold message
  rw [hText, if_pos (List.prefix_append _ _), List.drop_left,
    String.ofList_toList]

/- A text whose first two letters are other ones. -/
def BeginsOtherwise (text : String) : Prop :=
  2 ≤ text.toList.length ∧
    text.toList.take 2 ≠ notFoundStart.take 2

instance (text : String) : Decidable (BeginsOtherwise text) :=
  inferInstanceAs (Decidable (_ ∧ _))

theorem BeginsOtherwise.append
    {text : String}
    (h : BeginsOtherwise text)
    (more : String) :
    BeginsOtherwise (text ++ more) := by
  unfold BeginsOtherwise
  rw [String.toList_append, List.length_append,
    List.take_append_of_le_length h.1]
  exact ⟨Nat.le_add_right_of_le h.1, h.2⟩

theorem BeginsOtherwise.not_notFoundStart
    {text : String}
    (h : BeginsOtherwise text) :
    ¬ notFoundStart <+: text.toList := by
  rintro ⟨name, hText⟩
  refine h.2 ?_
  rw [← hText, List.take_append_of_le_length (by decide)]

/- Any other message begins otherwise. -/
theorem beginsOtherwise_message
    {c : Complaint}
    (h : c.Nameless) :
    BeginsOtherwise c.message := by
  cases c with
  | notFound => exact h.elim
  | divisionByZero =>
      have hText : BeginsOtherwise "division by zero" := by
        decide
      exact hText
  | unknownPrefix operator right =>
      have hText : BeginsOtherwise "unknown operator: " := by
        decide
      exact (hText.append _).append _
  | unknownInfix left operator right =>
      have hText : BeginsOtherwise "unknown operator: " := by
        decide
      exact hText.append _
  | typeMismatch left operator right =>
      have hText : BeginsOtherwise "type mismatch: " := by
        decide
      exact hText.append _
  | notAFunction type =>
      have hText : BeginsOtherwise "not a function: " := by
        decide
      exact hText.append _
  | notIndexable type =>
      have hText :
          BeginsOtherwise "index operator not supported: " := by
        decide
      exact hText.append _
  | unusableKey type =>
      have hText :
          BeginsOtherwise "unusable as hash key: " := by
        decide
      exact hText.append _
  | argument e =>
      have hText : BeginsOtherwise "argument to `" := by
        decide
      cases e with
      | wrongCount got want =>
          have hText :
              BeginsOtherwise
                "wrong number of arguments. got = " := by
            decide
          exact ((hText.append _).append _).append _
      | unsupported b got =>
          exact ((hText.append _).append _).append _
      | notArray b got =>
          exact ((hText.append _).append _).append _

theorem message_nameless
    {c : Complaint}
    (h : c.Nameless) :
    r.message c.message = c.message :=
  if_neg (beginsOtherwise_message h).not_notFoundStart

theorem same_message
    (text : String) :
    same.message text = text := by
  unfold message
  split
  · next hStart =>
      rcases hStart with ⟨name, hText⟩
      rw [← hText, List.drop_left, same_apply]
      refine String.toList_inj.mp ?_
      unfold Complaint.message
      have hName : (String.ofList name).toList = name :=
        String.toList_ofList
      rw [String.toList_append, hName]
      exact hText
  · rfl

------------------------------------------------------------
-- Nodes
------------------------------------------------------------

/- A token of another name, if it is of a name. -/
def token (t : Token) : Token :=
  if t.kind = .ident then
    { t with literal := r.apply t.literal }
  else
    t

/- Another name where it is written. -/
def identifier (id : Identifier) : Identifier where
  token := r.token id.token
  name := r.apply id.name

theorem same_token
    (t : Token) :
    same.token t = t := by
  unfold token
  rw [same_apply]
  split <;> rfl

theorem same_identifier
    (id : Identifier) :
    same.identifier id = id := by
  unfold identifier
  rw [same_apply, same_token]

end Renaming

namespace Node

/- A tree with other names. -/
def renamed
    (r : Renaming)
    (n : Node) :
    Node :=
  n.mapNames r.identifier r.token r.token

theorem renamed_same
    (n : Node) :
    n.renamed .same = n := by
  have hIdentifier : Renaming.same.identifier = id :=
    funext Renaming.same_identifier
  have hToken : Renaming.same.token = id :=
    funext Renaming.same_token
  unfold renamed
  rw [hIdentifier, hToken, mapNames_id]

end Node

------------------------------------------------------------
-- Printing
------------------------------------------------------------

variable [Platform]

/- Names are texts that can be printed. -/
theorem IsName.isPrintable
    {text : String}
    (h : IsName text) :
    Builtin.isPrintable text = true := by
  refine List.all_eq_true.mpr fun c hMem => ?_
  have hCode := code_of_isLetter (List.all_eq_true.mp h.2.1 c hMem)
  exact Platform.prints_ascii c (by omega)

namespace Renaming

variable (r : Renaming)

theorem printsLike_apply
    (text : String) :
    PrintsLike text (r.apply text) := by
  by_cases hName : IsName text
  · have hOther := (r.isName_apply_iff text).mpr hName
    exact hOther.isPrintable.trans hName.isPrintable.symm
  · rw [r.apply_of_not_isName hName]
    exact textwise_printsLike.refl text

theorem printsLike_token
    (t : Token) :
    PrintsLike t.literal (r.token t).literal := by
  unfold token
  split
  · exact r.printsLike_apply t.literal
  · exact textwise_printsLike.refl t.literal

theorem printsLike_message
    (text : String) :
    PrintsLike text (r.message text) := by
  by_cases hStart : notFoundStart <+: text.toList
  · obtain ⟨name, hText⟩ := hStart
    have hMessage :
        text =
          (Complaint.notFound (String.ofList name)).message := by
      refine String.toList_inj.mp (hText.symm.trans ?_)
      exact (congrArg _ String.toList_ofList.symm).trans
        String.toList_append.symm
    rw [hMessage, r.message_notFound]
    exact textwise_printsLike.append_left
      "identifier not found: " (r.printsLike_apply _)
  · unfold message
    rw [if_neg hStart]
    exact textwise_printsLike.refl text

end Renaming

/- A tree with other names is as high, and its text can be printed
   just if it could before. -/
theorem Node.renderWithin_renamed
    (r : Renaming)
    (levels : Nat)
    (n : Node) :
    LikeResults Eq PrintsLike (n.renderWithin levels)
      ((n.renamed r).renderWithin levels) :=
  renderWithin_mapNames textwise_printsLike
    (fun id => r.printsLike_apply id.name) r.printsLike_token
    levels n

end Monkey
