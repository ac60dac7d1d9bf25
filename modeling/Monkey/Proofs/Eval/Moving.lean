import Mathlib.Order.Nat
import Monkey.Proofs.Eval.Likeness
import Monkey.Proofs.Machine.Keeps
import Monkey.Proofs.Machine.Translation
import Monkey.Proofs.Syntax.Renaming

/-
  Evaluation elsewhere, under other names.

  A `Move` puts the scopes of a machine behind others, as if it
  had made these before, gives its objects identities that come
  after those of others, and gives other names to everything.
  Evaluation of a node with other names on a machine that has
  been moved does what evaluation does without the move.

  Scopes that are found behind others allow more steps to look
  names up.  This makes no difference as long as each scope
  refers to earlier ones, and that is kept only if functions
  refer to scopes that are already there.

  Main declarations:
    * `Move`
    * `Move.machine`
    * `Move.Fits`
    * `moving`
    * `moving_respected`
-/

namespace Monkey

------------------------------------------------------------
-- Moves
------------------------------------------------------------

/-
  Other names, scopes and identities that come before, and the
  first identity of an error whose message may change.
-/
structure Move where
  names : Renaming
  base : Scopes
  given : Identity
  old : Identity

/- A value that is a function only if that refers to a scope of a
   set. -/
def Value.RefersTo
    (inside : ScopeId → Prop)
    (v : Value) : Prop :=
  ∀ id params body scope,
    v = .function id params body scope → inside scope

theorem Value.refersTo_of_isPlain
    {inside : ScopeId → Prop}
    {v : Value}
    (h : v.IsPlain) :
    v.RefersTo inside := by
  rintro id params body scope rfl
  exact h.elim

namespace Move

variable (mv : Move)

/- The message of an error.  An old one keeps it. -/
def message
    (id : Identity)
    (text : String) :
    String :=
  if id < mv.old then text else mv.names.message text

/- What a move makes of the parts of values. -/
def translation : Translation where
  identity id := mv.given + id
  message := mv.message
  name := mv.names.apply
  identifier := mv.names.identifier
  body := Node.renamed mv.names
  scope id := mv.base.size + id

/- A machine that has been moved, with any text printed. -/
def machine
    (m : Machine)
    (output : String) :
    Machine where
  scopes := Scopes.behind mv.translation mv.base m.scopes
  output := output
  nextIdentity := mv.given + m.nextIdentity

/- If anything comes before, only scopes that are there count. -/
def Inside
    (count : Nat)
    (id : ScopeId) : Prop :=
  0 < mv.base.size → id < count

/-
  A machine that can be moved, with its number of scopes: new
  errors are not old, and if other scopes come before, outer
  scopes are earlier ones and functions refer to scopes that are
  there.
-/
structure Fits
    (count : Nat)
    (m : Machine) : Prop where
  size : m.scopes.size = count
  old : mv.old ≤ m.nextIdentity
  ordered : 0 < mv.base.size → m.scopes.Ordered
  bound :
    m.Holds (Value.RefersTo (mv.Inside count)) fun _ => True

variable {mv}

theorem Inside.mono
    {count more : Nat}
    {id : ScopeId}
    (h : mv.Inside count id)
    (hMore : count ≤ more) :
    mv.Inside more id :=
  fun hBase => Nat.lt_of_lt_of_le (h hBase) hMore

end Move

/-
  An evaluation, and one that has been moved.  The stages are
  numbers of scopes.  The texts printed are the same if they are
  kept track of.
-/
def moving
    (mv : Move)
    (tracked : Prop) :
    Likeness Nat where
  names id id' := id' = mv.names.identifier id
  nodes n n' := n' = n.renamed mv.names
  values count v v' :=
    v.Within (Value.RefersTo (mv.Inside count)) ∧
      v' = v.translate mv.translation
  scopes count s s' := mv.Inside count s ∧ s' = mv.base.size + s
  outers count s s' := mv.Inside count s ∧ s' = mv.base.size + s
  machines count m m' :=
    mv.Fits count m ∧
      ∃ output, m' = mv.machine m output ∧
        (tracked → output = m.output)
  messages id text text' := text' = mv.message id text

section

variable {mv : Move}
variable {tracked : Prop}
variable {count : Nat}

------------------------------------------------------------
-- Values
------------------------------------------------------------

theorem refersTo_mono
    {more : Nat}
    (hMore : count ≤ more)
    (v : Value)
    (h : v.RefersTo (mv.Inside count)) :
    v.RefersTo (mv.Inside more) :=
  fun id params body scope hFunction =>
    (h id params body scope hFunction).mono hMore

/- A value and what it is elsewhere have the same form. -/
theorem moving_matches
    {v : Value}
    (h : v.Within (Value.RefersTo (mv.Inside count))) :
    (moving mv tracked).Matches count v
      (v.translate mv.translation) := by
  cases v with
  | returned id v =>
      exact .returned _ _ ⟨(Value.within_returned.mp h).2, rfl⟩
  | error => exact .error _ _ rfl
  | function =>
      exact .function _ _ (forall₂_image.mpr rfl) rfl
        ⟨h.self _ _ _ _ rfl, rfl⟩
  | array id elements =>
      unfold Value.translate
      rw [Value.translateList_eq_map]
      refine .array _ _ ?_
      rw [List.forall₂_map_right_iff]
      exact List.forall₂_same.mpr fun v hMem =>
        ⟨(Value.within_array.mp h).2 v hMem, rfl⟩
  | hash id entries =>
      unfold Value.translate
      rw [Value.translateEntries_eq_map]
      refine .hash _ _ ?_
      rw [List.forall₂_map_right_iff]
      refine List.forall₂_same.mpr fun e hMem => ?_
      rcases (Value.within_hash.mp h).2 e hMem with
        ⟨hKey, hValue⟩
      exact ⟨rfl, ⟨hKey, rfl⟩, hValue, rfl⟩
  | _ => exact .plain trivial

/- A new object of the same form as another one, with parts that
   are elsewhere, is that one elsewhere. -/
theorem moving_of_matches
    {v v' : Value}
    (h : (moving mv tracked).Matches count v v')
    (hNew : ¬ v.IsPlain)
    (hId :
      ∀ id, v.identity? = some id →
        v'.identity? = some (mv.given + id)) :
    v.Within (Value.RefersTo (mv.Inside count)) ∧
      v' = v.translate mv.translation := by
  cases h with
  | plain hPlain => exact absurd hPlain hNew
  | returned id id' hValue =>
      cases hId id rfl
      rcases hValue with ⟨hWithin, rfl⟩
      exact ⟨Value.within_returned.mpr ⟨nofun, hWithin⟩, rfl⟩
  | error id id' hMessage =>
      cases hId id rfl
      cases hMessage
      exact ⟨Value.IsFlat.within trivial nofun, rfl⟩
  | function id id' hParams hBody hOuter =>
      cases hId id rfl
      cases hBody
      cases forall₂_image.mp hParams
      rcases hOuter with ⟨hInside, rfl⟩
      refine ⟨Value.IsFlat.within trivial ?_, rfl⟩
      rintro _ _ _ _ ⟨⟩
      exact hInside
  | array id id' hElements =>
      cases hId id rfl
      rcases (List.forall₂_and_left _ _).mp hElements with
        ⟨hWithin, hImages⟩
      cases forall₂_image.mp hImages
      refine ⟨Value.within_array.mpr ⟨nofun, hWithin⟩, ?_⟩
      rw [Value.translate, Value.translateList_eq_map]
      rfl
  | hash id id' hEntries =>
      cases hId id rfl
      have hBoth :
          List.Forall₂
            (fun e e' : HashKey × HashPair Value =>
              (e.2.key.Within
                  (Value.RefersTo (mv.Inside count)) ∧
                e.2.value.Within
                  (Value.RefersTo (mv.Inside count))) ∧
                e' = Value.translateEntry mv.translation e)
            _ _ :=
        hEntries.imp fun e e' ⟨hKey, hFirst, hSecond⟩ =>
          ⟨⟨hFirst.1, hSecond.1⟩, by
            rcases e' with ⟨k', ⟨a', b'⟩⟩
            cases hKey
            cases hFirst.2
            cases hSecond.2
            rfl⟩
      rcases (List.forall₂_and_left _ _).mp hBoth with
        ⟨hWithin, hImages⟩
      cases forall₂_image.mp hImages
      refine ⟨Value.within_hash.mpr ⟨nofun, hWithin⟩, ?_⟩
      rw [Value.translate, Value.translateEntries_eq_map]
      rfl

------------------------------------------------------------
-- Machines
------------------------------------------------------------

namespace Move.Fits

variable {m : Machine}

/- An identity has been given out, and anything printed. -/
theorem later
    (h : mv.Fits count m)
    {next : Identity}
    (hNext : m.nextIdentity ≤ next)
    (output : String) :
    mv.Fits count
      { m with output := output, nextIdentity := next } where
  size := h.size
  old := Nat.le_trans h.old hNext
  ordered := h.ordered
  bound := ⟨h.bound.values, h.bound.outer, h.bound.fresh⟩

theorem newScope
    (h : mv.Fits count m)
    {outer : ScopeId}
    (hOuter : mv.Inside count outer) :
    mv.Fits (count + 1)
      { m with
        scopes := m.scopes.push (.empty (some outer)) } where
  size := by rw [Array.size_push, h.size]
  old := h.old
  ordered hBase :=
    (h.ordered hBase).push fun _ hEq =>
      Option.some_inj.mp hEq ▸ h.size ▸ hOuter hBase
  bound :=
    (h.bound.mono (refersTo_mono (Nat.le_succ count))).newScope
      fun _ _ => trivial

theorem define
    (h : mv.Fits count m)
    (id : ScopeId)
    (name : String)
    {v : Value}
    (hValue : v.Within (Value.RefersTo (mv.Inside count))) :
    mv.Fits count
      { m with
        scopes := m.scopes.modify id (·.define name v) } where
  size := by rw [Array.size_modify, h.size]
  old := h.old
  ordered hBase := (h.ordered hBase).modify id name v
  bound := h.bound.define id name hValue

/- Names mean the same elsewhere. -/
theorem lookup
    (h : mv.Fits count m)
    (id : ScopeId)
    (name : String)
    (output : String) :
    (mv.machine m output).scopes.lookup (mv.base.size + id)
        (mv.names.apply name) =
      (m.scopes.lookup id name).map
        (Value.translate mv.translation) := by
  have hSteps :
      m.scopes.lookupWithin name (mv.base.size + id + 1) id =
        m.scopes.lookup id name := by
    rcases Nat.eq_zero_or_pos mv.base.size with hNone | hBase
    · rw [hNone, Nat.zero_add]
      rfl
    · exact (h.ordered hBase).lookupWithin_eq name
        (Nat.lt_succ_of_le (Nat.le_add_left ..))
  rw [← hSteps]
  exact Scopes.lookupWithin_behind mv.base m.scopes
    mv.names.apply_injective (fun _ => rfl) name _ id

end Move.Fits

------------------------------------------------------------
-- Evaluation
------------------------------------------------------------

theorem moving_make
    (form form' : Form)
    (hMatch :
      ∀ id id',
        (moving mv tracked).Matches count (form.object id)
          (form'.object id')) :
    (moving mv tracked).Relates count
      (moving mv tracked).values (Eval.make form)
      (Eval.make form') := by
  rintro later hLater m _ ⟨hFits, output, rfl, hOutput⟩
  have hNew : ¬ (form.object m.nextIdentity).IsPlain := by
    cases form <;> exact id
  have hId :
      ∀ id, (form.object m.nextIdentity).identity? = some id →
        (form'.object (mv.given + m.nextIdentity)).identity? =
          some (mv.given + id) := by
    intro id hSome
    rw [form.identity?_object] at hSome
    cases hSome
    exact form'.identity?_object _
  rcases moving_of_matches (hMatch _ _) hNew hId with
    ⟨hWithin, hImage⟩
  exact ⟨later, le_refl later,
    ⟨hFits.later (Nat.le_succ _) _, output, rfl, hOutput⟩,
    hWithin.mono (refersTo_mono hLater), hImage⟩

theorem moving_newScope
    {s s' : ScopeId}
    (h : (moving mv tracked).outers count s s') :
    (moving mv tracked).Relates count
      (moving mv tracked).scopes (Eval.newScope (some s))
      (Eval.newScope (some s')) := by
  rcases h with ⟨hInside, rfl⟩
  rintro later hLater m _ ⟨hFits, output, rfl, hOutput⟩
  refine ⟨later + 1, Nat.le_succ later,
    ⟨hFits.newScope (hInside.mono hLater), output, ?_, hOutput⟩,
    fun _ => ?_, ?_⟩
  · unfold Move.machine
    rw [← Scopes.push_behind]
    rfl
  · exact hFits.size ▸ Nat.lt_succ_self _
  · exact Scopes.size_behind ..

theorem moving_define
    {s s' : ScopeId}
    {v v' : Value}
    (name : String)
    (hScope : (moving mv tracked).scopes count s s')
    (hValue : (moving mv tracked).values count v v') :
    (moving mv tracked).Relates count Likeness.Unknown
      (Eval.define s name v)
      (Eval.define s' (mv.names.apply name) v') := by
  rcases hScope with ⟨-, rfl⟩
  rcases hValue with ⟨hWithin, rfl⟩
  rintro later hLater m _ ⟨hFits, output, rfl, hOutput⟩
  refine ⟨later, le_refl later,
    ⟨hFits.define s name
        (hWithin.mono (refersTo_mono hLater)),
      output, ?_, hOutput⟩,
    trivial⟩
  unfold Move.machine
  rw [← Scopes.modify_behind mv.base m.scopes
    mv.names.apply_injective]
  rfl

theorem moving_lookup
    {s s' : ScopeId}
    (name : String)
    (hScope : (moving mv tracked).scopes count s s') :
    (moving mv tracked).Relates count
      (fun later =>
        Option.Rel ((moving mv tracked).values later))
      (Eval.lookup s name)
      (Eval.lookup s' (mv.names.apply name)) := by
  rcases hScope with ⟨-, rfl⟩
  rintro later hLater m _ ⟨hFits, output, rfl, hOutput⟩
  refine ⟨later, le_refl later,
    ⟨hFits, output, rfl, hOutput⟩, ?_⟩
  rw [hFits.lookup s name output]
  cases hFound : m.scopes.lookup s name with
  | none => exact .none
  | some v =>
      exact .some
        ⟨hFits.bound.lookupWithin trivial hFound, rfl⟩

/- A new error about a name is about the other name. -/
theorem moving_notFound
    (name : String) :
    (moving mv tracked).Relates count
      (moving mv tracked).values
      (Eval.raise (Complaint.notFound name).message)
      (Eval.raise
        (Complaint.notFound (mv.names.apply name)).message) := by
  rintro later hLater m _ ⟨hFits, output, rfl, hOutput⟩
  refine ⟨later, le_refl later,
    ⟨hFits.later (Nat.le_succ _) _, output, rfl, hOutput⟩,
    Value.IsFlat.within trivial nofun, ?_⟩
  have hMessage :
      mv.message m.nextIdentity
          (Complaint.notFound name).message =
        (Complaint.notFound (mv.names.apply name)).message := by
    unfold Move.message
    rw [if_neg (Nat.not_lt.mpr hFits.old),
      mv.names.message_notFound]
  rw [← hMessage]
  rfl

/- A name means something, a builtin function, or nothing in both
   places. -/
theorem moving_identifier
    {s s' : ScopeId}
    (name : String)
    (hScope : (moving mv tracked).scopes count s s') :
    (moving mv tracked).Relates count
      (moving mv tracked).values (Eval.identifier s name)
      (Eval.identifier s' (mv.names.apply name)) := by
  refine (moving_lookup name hScope).bind
    fun later _ found found' hFound => ?_
  cases hFound with
  | some hValue =>
      exact .pure fun _ hMore =>
        ⟨hValue.1.mono (refersTo_mono hMore), hValue.2⟩
  | none =>
      dsimp only
      rw [mv.names.ofName?_apply]
      split
      · exact .pure fun _ _ =>
          ⟨Value.IsFlat.within trivial nofun, rfl⟩
      · exact moving_notFound name

/- Evaluation does the same elsewhere. -/
theorem moving_respected
    (mv : Move)
    (tracked : Prop) :
    (moving mv tracked).Respected where
  values_mono hMore h :=
    ⟨h.1.mono (refersTo_mono hMore), h.2⟩
  scopes_mono hMore h := ⟨h.1.mono hMore, h.2⟩
  captures h := h
  nodes_match := by
    rintro n _ rfl
    exact n.matches_mapNames _ _ _
  values_match := by
    rintro count v _ ⟨hWithin, rfl⟩
    exact moving_matches hWithin
  same_eq := by
    rintro count v _ u _ ⟨-, rfl⟩ ⟨-, rfl⟩
    exact (v.same_translate mv.translation
      (fun _ _ hSame => Nat.add_left_cancel hSame) u).symm
  plain hNone := by
    have hPlain := Value.isPlain_of_identity? hNone
    exact
      ⟨hPlain.isFlat.within (Value.refersTo_of_isPlain hPlain),
        (hPlain.translate_eq _).symm⟩
  nameless id c hNameless := by
    change c.message = mv.message id c.message
    unfold Move.message
    rw [mv.names.message_nameless hNameless, ite_self]
  make := moving_make
  newScope := moving_newScope
  define := by
    rintro count s s' v v' id _ rfl
    exact moving_define id.name
  identifier := by
    rintro count s s' id _ rfl
    exact moving_identifier id.name

------------------------------------------------------------
-- Printing
------------------------------------------------------------

variable [Platform]

/- A result that uses no state is as good elsewhere. -/
omit [Platform] in
theorem moving_ofExcept
    {α β : Type}
    {good : α → β → Prop}
    {r : Except Failure α}
    {r' : Except Failure β}
    (h : LikeResults Eq good r r') :
    (moving mv tracked).Relates count (fun _ => good)
      (Eval.ofExcept r) (Eval.ofExcept r') := by
  cases h with
  | ok hGood => exact .pure fun _ _ => hGood
  | error hSame =>
      cases hSame
      exact .throw _

omit [Platform] in
theorem moving_printLine
    {text text' : String}
    (h : tracked → text' = text) :
    (moving mv tracked).Relates count Likeness.Unknown
      (Eval.printLine text) (Eval.printLine text') := by
  rintro later - m _ ⟨hFits, output, rfl, hOutput⟩
  refine ⟨later, le_refl later,
    ⟨hFits.later (Nat.le_refl _) _, output ++ text' ++ "\n",
      rfl, fun hTracked => ?_⟩,
    trivial⟩
  rw [h hTracked, hOutput hTracked]

/- The parts of a value can be printed elsewhere if they can be
   printed. -/
theorem looksAlike_moved
    (v : Value) :
    v.LooksAlike PrintsLike mv.translation := by
  cases v with
  | function id params body scope =>
      refine ⟨?_, body.renderWithin_renamed mv.names⟩
      exact Node.renderParams_related textwise_printsLike
        (fun id => mv.names.printsLike_apply id.name) params
  | error id text =>
      change PrintsLike text (mv.message id text)
      unfold Move.message
      split
      · exact textwise_printsLike.refl text
      · exact mv.names.printsLike_message text
  | _ => trivial

/- Values can be printed elsewhere if they can be printed.  The
   texts are the same if all parts look the same. -/
theorem moving_printValues
    (depth : Nat)
    {vs vs' : List Value}
    (hValues :
      List.Forall₂ ((moving mv tracked).values count) vs vs')
    (hSame :
      tracked →
        ∀ v ∈ vs, v.Within (Value.LooksSame mv.translation)) :
    (moving mv tracked).Relates count Likeness.Unknown
      (Builtin.printValues depth vs)
      (Builtin.printValues depth vs') := by
  induction vs generalizing count vs' with
  | nil =>
      cases hValues
      exact .pure fun _ _ => trivial
  | cons v others ih =>
      cases hValues with
      | cons hFirst hOthers =>
          rcases hFirst with ⟨-, rfl⟩
          unfold Builtin.printValues
          refine (moving_ofExcept
            (Value.lineFor_translate_like depth fun x _ =>
              looksAlike_moved x)).bind
              fun more hMore text text' hText => ?_
          refine (moving_printLine fun hTracked => hText
            (hSame hTracked v (List.mem_cons_self ..))).bind
              fun most hMost _ _ _ => ?_
          exact ih
            ((moving_respected mv tracked).forall₂_mono
              (hMore.trans hMost) hOthers)
            fun hTracked w hMem =>
              hSame hTracked w (List.mem_cons_of_mem _ hMem)

theorem moving_prints
    (hSame :
      tracked → ∀ v : Value, v.LooksSame mv.translation) :
    (moving mv tracked).Prints :=
  fun _ depth _ _ hValues =>
    moving_printValues depth hValues
      fun hTracked _ _ x _ => hSame hTracked x

end

------------------------------------------------------------
-- The Same Names
------------------------------------------------------------

/- Nothing but other scopes and objects come before. -/
def Move.behind
    (base : Scopes)
    (given : Identity) :
    Move where
  names := .same
  base := base
  given := given
  old := 0

/- A new machine can be put behind anything. -/
theorem Move.behind_fits_new
    (base : Scopes)
    (given : Identity) :
    (behind base given).Fits 1 Machine.new where
  size := rfl
  old := Nat.zero_le _
  ordered _ := Scopes.ordered_root []
  bound := Machine.holds_new

/- Every value looks the same behind others. -/
theorem Value.looksSame_behind
    (base : Scopes)
    (given : Identity)
    (v : Value) :
    v.LooksSame (Move.behind base given).translation := by
  cases v with
  | function fn params body scope =>
      have hIdentifier : Renaming.same.identifier = id :=
        funext Renaming.same_identifier
      refine ⟨?_, body.renamed_same⟩
      change params.map Renaming.same.identifier = params
      rw [hIdentifier, List.map_id]
  | error id text =>
      change (Move.behind base given).message id text = text
      unfold Move.message
      split
      · rfl
      · exact Renaming.same_message text
  | _ => trivial

end Monkey
