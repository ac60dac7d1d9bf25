import Monkey.Proofs.Syntax.Wording

/-
  Values in other words.

  A `Translation` tells what the identities, messages, names,
  function bodies, and scopes of one machine are in another one.
  A value is translated part by part.  It can be written just
  where it could be before if its functions take as many levels,
  and in the same way if functions and messages stay the same.

  Main declarations:
    * `Translation`
    * `Value.translate`
    * `Value.same_translate`
    * `Value.inspect_translate_like`
    * `Value.inspect_translate`
    * `Value.lineFor_translate_like`
-/

namespace Monkey

------------------------------------------------------------
-- Translations
------------------------------------------------------------

/-
  What to put for the parts of values.  The text of an error may
  depend on which object it is.  Names are those that scopes
  bind, and identifiers those in the parameters of functions.
-/
structure Translation where
  identity : Identity → Identity
  message : Identity → String → String
  name : String → String
  identifier : Identifier → Identifier
  body : Node → Node
  scope : ScopeId → ScopeId

namespace Value

mutual

/- A value in other words. -/
def translate (t : Translation) : Value → Value
  | returned id v => .returned (t.identity id) (translate t v)
  | error id text => .error (t.identity id) (t.message id text)
  | function id params body scope =>
      .function (t.identity id) (params.map t.identifier)
        (t.body body) (t.scope scope)
  | array id elements =>
      .array (t.identity id) (translateList t elements)
  | hash id entries =>
      .hash (t.identity id) (translateEntries t entries)
  | int n => .int n
  | bool b => .bool b
  | null => .null
  | str s => .str s
  | builtin b => .builtin b
  | hostBool id b => .hostBool id b
  | hostNull id => .hostNull id
  | hostObject id => .hostObject id

/- A list of values in other words. -/
def translateList (t : Translation) : List Value → List Value
  | [] => []
  | v :: rest => translate t v :: translateList t rest

/- The entries of a hash in other words. -/
def translateEntries
    (t : Translation) :
    List (HashKey × HashPair Value) →
      List (HashKey × HashPair Value)
  | [] => []
  | (k, ⟨key, value⟩) :: rest =>
      (k, ⟨translate t key, translate t value⟩) ::
        translateEntries t rest

end

variable (t : Translation)

/- An entry of a hash in other words. -/
def translateEntry
    (e : HashKey × HashPair Value) :
    HashKey × HashPair Value :=
  (e.1, ⟨e.2.key.translate t, e.2.value.translate t⟩)

theorem translateList_eq_map
    (vs : List Value) :
    translateList t vs = vs.map (translate t) := by
  induction vs with
  | nil => rfl
  | cons v rest ih => simp [translateList, ih]

theorem translateEntries_eq_map
    (es : List (HashKey × HashPair Value)) :
    translateEntries t es = es.map (translateEntry t) := by
  induction es with
  | nil => rfl
  | cons e rest ih =>
      simp [translateEntries, translateEntry, ih]

theorem IsPlain.translate_eq
    {v : Value}
    (h : v.IsPlain) :
    v.translate t = v := by
  cases v with
  | returned | error | function | array | hash => exact h.elim
  | _ => rfl

theorem isError_translate
    (v : Value) :
    (v.translate t).isError = v.isError := by
  cases v <;> rfl

/- Different objects stay different. -/
theorem same_translate
    (hInjective : Function.Injective t.identity)
    (v w : Value) :
    (v.translate t).same (w.translate t) = v.same w := by
  have hBeq :
      ∀ a b, (t.identity a == t.identity b) = (a == b) := by
    intro a b
    rw [Bool.eq_iff_iff, beq_iff_eq, beq_iff_eq]
    exact hInjective.eq_iff
  cases v <;> cases w <;> simp only [translate, same, hBeq]

/- An error that has the same text in either of two ways to
   put it, or a value of another kind. -/
def SameMessage
    (message message' : Identity → String → String) :
    Value → Prop
  | error id text => message id text = message' id text
  | _ => True

variable {t}
variable {message : Identity → String → String}

mutual

/- Only the messages of the errors inside of a value count. -/
theorem translate_message :
    ∀ v : Value, v.Within (SameMessage t.message message) →
      v.translate t = v.translate { t with message }
  | .returned id v, h => by
      simp only [translate,
        translate_message v (within_returned.mp h).2]
  | .error id text, h => by
      have hText : t.message id text = message id text := h.self
      simp only [translate, hText]
  | .array id elements, h => by
      simp only [translate,
        translateList_message elements (within_array.mp h).2]
  | .hash id entries, h => by
      simp only [translate,
        translateEntries_message entries (within_hash.mp h).2]
  | .function _ _ _ _, _ => rfl
  | .int _, _ => rfl
  | .bool _, _ => rfl
  | .null, _ => rfl
  | .str _, _ => rfl
  | .builtin _, _ => rfl
  | .hostBool _ _, _ => rfl
  | .hostNull _, _ => rfl
  | .hostObject _, _ => rfl

theorem translateList_message :
    ∀ vs : List Value,
      (∀ v ∈ vs, v.Within (SameMessage t.message message)) →
        translateList t vs = translateList { t with message } vs
  | [], _ => rfl
  | v :: rest, h => by
      rcases List.forall_mem_cons.mp h with ⟨hFirst, hRest⟩
      simp only [translateList, translate_message v hFirst,
        translateList_message rest hRest]

theorem translateEntries_message :
    ∀ es : List (HashKey × HashPair Value),
      (∀ e ∈ es,
        e.2.key.Within (SameMessage t.message message) ∧
          e.2.value.Within (SameMessage t.message message)) →
        translateEntries t es =
          translateEntries { t with message } es
  | [], _ => rfl
  | (k, ⟨key, value⟩) :: rest, h => by
      rcases List.forall_mem_cons.mp h with
        ⟨⟨hKey, hValue⟩, hRest⟩
      simp only [translateEntries, translate_message key hKey,
        translate_message value hValue,
        translateEntries_message rest hRest]

end

------------------------------------------------------------
-- Written Forms
------------------------------------------------------------

/- A part whose text is related to its text in other words, and
   that takes as many levels to show. -/
def LooksAlike
    (rel : String → String → Prop)
    (t : Translation) : Value → Prop
  | function _ params body _ =>
      rel (Node.renderParams params)
          (Node.renderParams (params.map t.identifier)) ∧
        ∀ levels,
          LikeResults Eq rel (body.renderWithin levels)
            ((t.body body).renderWithin levels)
  | error id text => rel text (t.message id text)
  | _ => True

/- A part that looks the same in other words. -/
def LooksSame (t : Translation) : Value → Prop
  | function _ params body _ =>
      params.map t.identifier = params ∧ t.body body = body
  | error id text => t.message id text = text
  | _ => True

theorem LooksSame.alike
    {v : Value}
    (h : v.LooksSame t) :
    v.LooksAlike (fun a a' => a' = a) t := by
  cases v with
  | function id params body scope =>
      refine ⟨congrArg Node.renderParams h.1, fun levels => ?_⟩
      rw [h.2]
      exact likeResults_eq_iff.mpr rfl
  | error => exact h
  | _ => trivial

/- A value whose parts look alike in other words is written like
   before, or fails to be in the same way. -/
theorem inspect_translate_like
    {rel : String → String → Prop}
    (hRel : Textwise rel)
    (depth : Nat)
    {v : Value}
    (h : v.Within (LooksAlike rel t)) :
    LikeResults Eq rel (v.inspect depth)
      ((v.translate t).inspect depth) := by
  induction depth generalizing v with
  | zero => exact .error rfl
  | succ depth ih =>
      cases v with
      | int n =>
          change LikeResults _ _ (inspectInteger n)
            (inspectInteger n)
          cases inspectInteger n with
          | ok text => exact .ok (hRel.refl text)
          | error f => exact .error rfl
      | returned id v => exact ih (within_returned.mp h).2
      | error id text =>
          have hText : rel text (t.message id text) := h.self
          exact .ok (hRel.append_left "ERROR: " hText)
      | function id params body scope =>
          rcases h.self with ⟨hParams, hBody⟩
          refine (hBody depth).bind fun _ _ hText => ?_
          have hBegin := hRel.append_right ") \x7b\n"
            (hRel.append_left "fn(" hParams)
          exact .ok
            (hRel.append_right "\n\x7d"
              (hRel.append hBegin hText))
      | array id elements =>
          have hParts :=
            LikeResults.mapM elements fun v hMem =>
              ih ((within_array.mp h).2 v hMem)
          simp only [translate, inspect, translateList_eq_map,
            List.mapM_map]
          exact hParts.bind fun _ _ hTexts =>
            .ok (hRel.append_right "]"
              (hRel.append_left "["
                (hRel.intercalate ", " hTexts)))
      | hash id entries =>
          have hParts :=
            LikeResults.mapM entries fun e hMem =>
              (ih ((within_hash.mp h).2 e hMem).1).bind
                fun key key' hKey =>
                  (ih ((within_hash.mp h).2 e hMem).2).bind
                    fun value value' hValue =>
                      .ok (a := key ++ ": " ++ value)
                        (b := key' ++ ": " ++ value')
                        (hRel.append
                          (hRel.append_right ": " hKey) hValue)
          simp only [translate, inspect,
            translateEntries_eq_map, List.mapM_map]
          exact hParts.bind fun _ _ hTexts =>
            .ok (hRel.append_right "\x7d"
              (hRel.append_left "\x7b"
                (hRel.intercalate ", " hTexts)))
      | hostObject => exact .error rfl
      | _ => exact .ok (hRel.refl _)

theorem inspect_translate
    {v : Value}
    (h : v.Within (LooksSame t))
    (depth : Nat) :
    (v.translate t).inspect depth = v.inspect depth :=
  likeResults_eq_iff.mp
    (inspect_translate_like textwise_eq depth
      (h.mono fun _ => LooksSame.alike))

------------------------------------------------------------
-- Lines
------------------------------------------------------------

variable [Platform]

/- A value in other words makes a line just where it did before,
   and if all its parts look the same, so does the line. -/
theorem lineFor_translate_like
    (depth : Nat)
    {v : Value}
    (h : v.Within (LooksAlike PrintsLike t)) :
    LikeResults Eq
      (fun line line' =>
        v.Within (LooksSame t) → line' = line)
      (Builtin.lineFor depth v)
      (Builtin.lineFor depth (v.translate t)) := by
  have hLike :=
    (inspect_translate_like textwise_printsLike depth
      h).and_same fun hSame => inspect_translate hSame depth
  refine hLike.bind fun text text' hTexts => ?_
  have hPrints :
      Builtin.isPrintable text' = Builtin.isPrintable text :=
    hTexts.1
  unfold Builtin.asLine
  rw [hPrints]
  split
  · exact .ok hTexts.2
  · exact .error rfl

end Value

end Monkey
