import Monkey.Parse.Grammar
import Monkey.Proofs.Eval.Likeness
import Monkey.Proofs.Machine.Keeps

/-
  What an evaluation leaves as it is.

  An evaluation writes to the scope that it runs in and to
  scopes that it makes itself, and to no other one.  No object is
  ever changed: an identity that shows again is that of the very
  same value.

  The proof compares an evaluation with itself.  The stages say
  which objects have been seen so far, among which no two have
  one identity.

  Main declarations:
    * `Moment.Reached`
    * `Moment.Frame`
    * `framing_closed`
    * `evaluation_frame`
-/

namespace Monkey

------------------------------------------------------------
-- Moments
------------------------------------------------------------

/- A machine, and the values that are held next to it. -/
structure Moment where
  machine : Machine
  held : List Value

namespace Moment

/- The values that are at hand: bound in a scope or held, and
   everything inside these, and all that are no objects. -/
inductive Shows (now : Moment) : Value → Prop
  | plain
      {v : Value}
      (hNone : v.identity? = none) :
      Shows now v
  | bound
      {id : ScopeId}
      {entry : String × Value}
      {v : Value}
      (hEntry : entry ∈ now.machine.bindings id)
      (hInside : entry.2.Contains v) :
      Shows now v
  | held
      {w v : Value}
      (hHeld : w ∈ now.held)
      (hInside : w.Contains v) :
      Shows now v

/- The moment after a computation, whose result is held. -/
def after
    (now : Moment)
    (x : Eval Value) :
    Moment :=
  match x now.machine with
  | .ok v m => { machine := m, held := v :: now.held }
  | .error _ m => { machine := m, held := now.held }

/-
  The moments that can be reached from a new machine.  Values
  at hand may be held, bound, or passed to a function, scopes may
  be made, and any node may be evaluated to any depth, whether
  it comes to an end or fails.  In particular, all evaluations
  that go on inside of another one start at such moments.
-/
inductive Reached [Platform] : Moment → Prop
  | new : Reached { machine := .new, held := [] }
  | hold
      {now : Moment}
      {held : List Value}
      (hReached : Reached now)
      (hShown : ∀ v ∈ held, now.Shows v) :
      Reached { now with held := held }
  | newScope
      {now : Moment}
      (outer : Option ScopeId)
      (hReached : Reached now) :
      Reached
        { now with
          machine :=
            { now.machine with
              scopes :=
                now.machine.scopes.push (.empty outer) } }
  | define
      {now : Moment}
      (scope : ScopeId)
      (name : String)
      {v : Value}
      (hReached : Reached now)
      (hShown : now.Shows v) :
      Reached
        { now with
          machine :=
            { now.machine with
              scopes :=
                now.machine.scopes.modify scope
                  (·.define name v) } }
  | clearOutput
      {now : Moment}
      (hReached : Reached now) :
      Reached { now with machine := now.machine.clearOutput }
  | evaluate
      {now : Moment}
      (depth : Nat)
      (node : Node)
      (scope : ScopeId)
      (hReached : Reached now) :
      Reached
        (now.after (Eval.evaluateWithin depth node scope))
  | apply
      {now : Moment}
      (depth : Nat)
      {fn : Value}
      {args : List Value}
      (hReached : Reached now)
      (hShown : ∀ v ∈ fn :: args, now.Shows v) :
      Reached
        (now.after
          (Eval.apply (M := Eval) (Eval.evaluateWithin depth)
            depth fn args))

end Moment

------------------------------------------------------------
-- Scopes That Stay
------------------------------------------------------------

namespace Machine

/- The scopes of a machine are still there with their outer
   scopes, and the same but for one of them, if for any. -/
structure SameBut
    (own : Option ScopeId)
    (base m : Machine) : Prop where
  scopes :
    ∀ (id : ScopeId) (scope : Scope),
      base.scopes[id]? = some scope →
        own ≠ some id → m.scopes[id]? = some scope
  outer :
    ∀ (id : ScopeId) (scope : Scope),
      base.scopes[id]? = some scope →
        ∃ scope' : Scope, m.scopes[id]? = some scope' ∧
          scope'.outer = scope.outer

namespace SameBut

variable {own : Option ScopeId}
variable {base m : Machine}

theorem refl
    (own : Option ScopeId)
    (base : Machine) :
    SameBut own base base where
  scopes _ _ h _ := h
  outer _ scope h := ⟨scope, h, rfl⟩

theorem size_le
    (h : SameBut own base m) :
    base.scopes.size ≤ m.scopes.size := by
  by_contra hLess
  rw [Nat.not_le] at hLess
  rcases h.outer m.scopes.size _
      (Array.getElem?_eq_getElem hLess) with
    ⟨scope, hScope, -⟩
  rw [Array.getElem?_eq_none (Nat.le_refl _)] at hScope
  cases hScope

/- Binding a name in the one scope, or in one made since. -/
theorem define
    (h : SameBut own base m)
    {id : ScopeId}
    (hId : own = some id ∨ base.scopes.size ≤ id)
    (name : String)
    (v : Value) :
    SameBut own base
      { m with
        scopes := m.scopes.modify id (·.define name v) } := by
  refine ⟨fun id' scope hBase hOther => ?_,
    fun id' scope hBase => ?_⟩
  · have hDifferent : id ≠ id' := by
      rintro rfl
      rcases hId with hOwn | hNew
      · exact hOther hOwn
      · rw [Array.getElem?_eq_none hNew] at hBase
        cases hBase
    rw [Array.getElem?_modify, if_neg hDifferent]
    exact h.scopes id' scope hBase hOther
  · rcases h.outer id' scope hBase with
      ⟨scope', hScope, hOuter⟩
    rw [Array.getElem?_modify, hScope]
    split
    · exact ⟨_, rfl, hOuter⟩
    · exact ⟨scope', rfl, hOuter⟩

theorem newScope
    (h : SameBut own base m)
    (scope : Scope) :
    SameBut own base
      { m with scopes := m.scopes.push scope } := by
  have hPushed :
      ∀ (id : ScopeId) (old : Scope),
        m.scopes[id]? = some old →
          (m.scopes.push scope)[id]? = some old := by
    intro id old hOld
    rcases Array.getElem?_eq_some_iff.mp hOld with ⟨hSize, -⟩
    rw [Array.getElem?_push, if_neg (Nat.ne_of_lt hSize)]
    exact hOld
  refine ⟨fun id old hBase hOther => ?_,
    fun id old hBase => ?_⟩
  · exact hPushed id old (h.scopes id old hBase hOther)
  · rcases h.outer id old hBase with ⟨new, hNew, hOuter⟩
    exact ⟨new, hPushed id new hNew, hOuter⟩

end SameBut

end Machine

------------------------------------------------------------
-- Objects That Are Known
------------------------------------------------------------

/- The objects that have been seen at some stage. -/
structure Seen where
  object : Value → Prop

namespace Seen

instance : Preorder Seen where
  le known more := ∀ v, known.object v → more.object v
  le_refl _ _ h := h
  le_trans _ _ _ h h' v hSeen := h' v (h v hSeen)

/- No objects. -/
def nothing : Seen where
  object _ := False

/- One more object. -/
def add
    (v : Value)
    (known : Seen) :
    Seen where
  object w := w = v ∨ known.object w

theorem le_add
    (v : Value)
    (known : Seen) :
    known ≤ known.add v :=
  fun _ h => .inr h

end Seen

namespace Value

theorem identity?_eq_of_same
    {v w : Value}
    (h : v.same w = true) :
    v.identity? = w.identity? := by
  cases v <;> cases w <;> simp_all [same, identity?]

/- Values without an identity are the same only if they are
   equal. -/
theorem eq_of_same
    {v w : Value}
    (h : v.same w = true)
    (hNone : v.identity? = none) :
    v = w := by
  cases v <;> cases w <;> simp_all [same, identity?]

/- A value is no object of its own, or a known one. -/
def IsKnown
    (known : Seen)
    (v : Value) : Prop :=
  v.identity? = none ∨ known.object v

theorem IsKnown.mono
    {known more : Seen}
    {v : Value}
    (h : v.IsKnown known)
    (hMore : known ≤ more) :
    v.IsKnown more :=
  h.imp_right (hMore v)

end Value

/-
  Everything bound is known, objects still to be made are not,
  and no two known objects have one identity.
-/
structure Machine.Knows
    (m : Machine)
    (known : Seen) : Prop where
  bound : m.Holds (Value.IsKnown known) fun _ => True
  made :
    ∀ v, known.object v →
      ∀ id ∈ v.identity?, id < m.nextIdentity
  alone :
    ∀ v w, known.object v → known.object w →
      v.same w = true → v = w

namespace Machine

variable {m : Machine}
variable {known : Seen}

/- Two known values that are one object are equal. -/
theorem Knows.eq_of_same
    (h : m.Knows known)
    {v w : Value}
    (hFirst : v.IsKnown known)
    (hSecond : w.IsKnown known)
    (hSame : v.same w = true) :
    v = w := by
  rcases hFirst with hNone | hFirst
  · exact Value.eq_of_same hSame hNone
  · rcases hSecond with hNone | hSecond
    · rw [← Value.identity?_eq_of_same hSame] at hNone
      exact Value.eq_of_same hSame hNone
    · exact h.alone v w hFirst hSecond hSame

/- A new object is known from then on. -/
theorem Knows.make
    (h : m.Knows known)
    {v : Value}
    (hId : v.identity? = some m.nextIdentity) :
    Knows { m with nextIdentity := m.nextIdentity + 1 }
      (known.add v) := by
  have hOther :
      ∀ w, known.object w → w.identity? ≠ v.identity? := by
    intro w hSeen hSame
    rw [hId] at hSame
    exact absurd (h.made w hSeen _ hSame) (Nat.lt_irrefl _)
  refine ⟨?_, ?_, ?_⟩
  · have hBound :
        m.Holds (Value.IsKnown (known.add v))
          fun _ => True :=
      h.bound.mono fun x hKnown => hKnown.mono (known.le_add v)
    exact ⟨hBound.values, hBound.outer, hBound.fresh⟩
  · rintro w (rfl | hSeen) id hMem
    · rw [hId] at hMem
      cases hMem
      exact Nat.lt_succ_self _
    · exact Nat.lt_succ_of_lt (h.made w hSeen id hMem)
  · rintro x y (rfl | hx) (rfl | hy) hSame
    · rfl
    · exact absurd (Value.identity?_eq_of_same hSame).symm
        (hOther y hy)
    · exact absurd (Value.identity?_eq_of_same hSame)
        (hOther x hx)
    · exact h.alone x y hx hy hSame

/- What is known does not depend on the printed text. -/
theorem Knows.print
    (h : m.Knows known)
    (text : String) :
    Knows { m with output := text } known :=
  ⟨⟨h.bound.values, h.bound.outer, h.bound.fresh⟩, h.made,
    h.alone⟩

theorem Knows.define
    (h : m.Knows known)
    (scope : ScopeId)
    (name : String)
    {v : Value}
    (hValue : v.Within (Value.IsKnown known)) :
    Knows
      { m with
        scopes := m.scopes.modify scope (·.define name v) }
      known :=
  ⟨h.bound.define scope name hValue, h.made, h.alone⟩

theorem Knows.newScope
    (h : m.Knows known)
    (outer : Option ScopeId) :
    Knows
      { m with scopes := m.scopes.push (.empty outer) }
      known :=
  ⟨h.bound.newScope fun _ _ => trivial, h.made, h.alone⟩

end Machine

------------------------------------------------------------
-- An Evaluation Next to Itself
------------------------------------------------------------

/-
  An evaluation and itself, since a machine from which only one
  scope may be written to: all values consist of objects that
  are known, and nodes are evaluated only in that scope and in
  scopes made since.
-/
def framing
    (own : Option ScopeId)
    (base : Machine) :
    Likeness Seen where
  names := Eq
  nodes := Eq
  values known v v' :=
    v.Within (Value.IsKnown known) ∧ v = v'
  scopes _ s s' :=
    (own = some s ∨ base.scopes.size ≤ s) ∧ s = s'
  outers _ := Eq
  machines known m m' :=
    m = m' ∧ m.Knows known ∧ Machine.SameBut own base m
  messages _ := Eq

/- A node has its own form. -/
theorem Node.matches_self
    (n : Node) :
    Node.Matches Eq Eq n n := by
  have hOption : ∀ value : Option Node,
      Option.Rel Eq value value := by
    rintro (_ | value)
    · exact .none
    · exact .some rfl
  cases n with
  | identifier => exact .identifier rfl
  | integer => exact .integer ..
  | boolean => exact .boolean ..
  | string => exact .string ..
  | prefixOp => exact .prefixOp _ _ _ rfl
  | infixOp => exact .infixOp _ _ _ rfl rfl
  | ifElse => exact .ifElse _ _ rfl rfl (hOption _)
  | function => exact .function _ _ (List.forall₂_refl _) rfl
  | call => exact .call _ _ rfl (List.forall₂_refl _)
  | array => exact .array _ _ (List.forall₂_refl _)
  | index => exact .index _ _ rfl rfl
  | hash =>
      exact .hash _ _
        (List.forall₂_same.mpr fun _ _ => ⟨rfl, rfl⟩)
  | letStmt => exact .letStmt _ _ rfl rfl
  | returnStmt => exact .returnStmt _ _ (hOption _)
  | exprStmt => exact .exprStmt _ _ rfl
  | block => exact .block _ _ (List.forall₂_refl _)
  | program => exact .program (List.forall₂_refl _)
  | foreign => exact .foreign

section

variable {own : Option ScopeId}
variable {base : Machine}
variable {known : Seen}

/- A value built from known ones has the same form as itself. -/
theorem framing_matches_self
    {v : Value}
    (h : v.Within (Value.IsKnown known)) :
    (framing own base).Matches known v v := by
  cases v with
  | returned id v =>
      exact .returned _ _ ⟨(Value.within_returned.mp h).2, rfl⟩
  | error id message => exact .error _ _ rfl
  | function id params body outer =>
      exact .function _ _
        (List.forall₂_same.mpr fun _ _ => rfl) rfl rfl
  | array id elements =>
      refine .array _ _ (List.forall₂_same.mpr ?_)
      exact fun v hMem => ⟨(Value.within_array.mp h).2 v hMem, rfl⟩
  | hash id entries =>
      refine .hash _ _ (List.forall₂_same.mpr ?_)
      intro entry hMem
      rcases (Value.within_hash.mp h).2 entry hMem with
        ⟨hKey, hValue⟩
      exact ⟨rfl, ⟨hKey, rfl⟩, hValue, rfl⟩
  | _ => exact .plain trivial

/- Values of the same form and identity are equal, and what is
   inside of them is known, or the value itself. -/
theorem framing_of_matches
    {v v' : Value}
    (h : (framing own base).Matches known v v')
    (hId : v.identity? = v'.identity?) :
    v = v' ∧
      v.Within fun x => x = v ∨ x.IsKnown known := by
  have hInside :
      ∀ {v x : Value}, x.Within (Value.IsKnown known) →
        x.Within fun y => y = v ∨ y.IsKnown known :=
    fun hWithin => hWithin.mono fun _ => .inr
  cases h with
  | plain hPlain => exact ⟨rfl, hPlain.isFlat.within (.inl rfl)⟩
  | returned id id' hValue =>
      cases hId
      rcases hValue with ⟨hWithin, rfl⟩
      exact ⟨rfl, Value.within_returned.mpr
        ⟨.inl rfl, hInside hWithin⟩⟩
  | error id id' hMessage =>
      cases hId
      cases hMessage
      exact ⟨rfl, Value.IsFlat.within trivial (.inl rfl)⟩
  | function id id' hParams hBody hOuter =>
      cases hId
      cases hBody
      cases hOuter
      rw [show (framing own base).names = Eq from rfl,
        List.forall₂_eq_eq_eq] at hParams
      cases hParams
      exact ⟨rfl, Value.IsFlat.within trivial (.inl rfl)⟩
  | array id id' hElements =>
      cases hId
      rcases (List.forall₂_and_left _ _).mp hElements with
        ⟨hWithin, hSame⟩
      rw [List.forall₂_eq_eq_eq] at hSame
      cases hSame
      exact ⟨rfl, Value.within_array.mpr
        ⟨.inl rfl, fun v hMem => hInside (hWithin v hMem)⟩⟩
  | hash id id' hEntries =>
      cases hId
      have hBoth :
          List.Forall₂
            (fun e e' : HashKey × HashPair Value =>
              (e.2.key.Within (Value.IsKnown known) ∧
                e.2.value.Within (Value.IsKnown known)) ∧
                e = e') _ _ :=
        hEntries.imp fun e e' ⟨hKey, hFirst, hSecond⟩ =>
          ⟨⟨hFirst.1, hSecond.1⟩, by
            rcases e with ⟨k, ⟨a, b⟩⟩
            rcases e' with ⟨k', ⟨a', b'⟩⟩
            cases hKey
            cases hFirst.2
            cases hSecond.2
            rfl⟩
      rcases (List.forall₂_and_left _ _).mp hBoth with
        ⟨hWithin, hSame⟩
      rw [List.forall₂_eq_eq_eq] at hSame
      cases hSame
      exact ⟨rfl, Value.within_hash.mpr
        ⟨.inl rfl, fun entry hMem =>
          ⟨hInside (hWithin entry hMem).1,
            hInside (hWithin entry hMem).2⟩⟩⟩

/- Everything that evaluation does stays within the frame. -/
theorem framing_closed
    (own : Option ScopeId)
    (base : Machine) :
    (framing own base).Closed where
  values_mono := by
    rintro known more v _ hMore ⟨hWithin, rfl⟩
    exact ⟨hWithin.mono fun x hKnown => hKnown.mono hMore, rfl⟩
  scopes_mono := fun _ hScope => hScope
  captures := fun hScope => hScope.2
  names_eq := by
    rintro id _ rfl
    rfl
  nodes_match := by
    rintro n _ rfl
    exact n.matches_self
  values_match := by
    rintro known v _ ⟨hWithin, rfl⟩
    exact framing_matches_self hWithin
  same_eq := by
    rintro known v _ u _ ⟨-, rfl⟩ ⟨-, rfl⟩
    rfl
  inspect_eq := by
    rintro known v _ ⟨-, rfl⟩ depth
    rfl
  plain := fun hNone =>
    ⟨(Value.isPlain_of_identity? hNone).isFlat.within (.inl hNone), rfl⟩
  messages_refl := fun _ _ => rfl
  make := by
    rintro known form form' hMatch more hMore m _
      ⟨rfl, hKnows, hSame⟩
    have hId := form.identity?_object m.nextIdentity
    rcases framing_of_matches
        (hMatch m.nextIdentity m.nextIdentity)
        (hId.trans (form'.identity?_object _).symm) with
      ⟨hEq, hWithin⟩
    refine ⟨more.add (form.object m.nextIdentity),
      more.le_add _,
      ⟨rfl, hKnows.make hId, ⟨hSame.scopes, hSame.outer⟩⟩,
      hWithin.mono ?_, hEq⟩
    rintro x (rfl | hKnown)
    · exact .inr (.inl rfl)
    · exact hKnown.mono (hMore.trans (more.le_add _))
  newScope := by
    rintro known s _ rfl more hMore m _ ⟨rfl, hKnows, hSame⟩
    exact ⟨more, le_refl more,
      ⟨rfl, hKnows.newScope _, hSame.newScope _⟩,
      .inr hSame.size_le, rfl⟩
  define := by
    rintro known s _ v _ name ⟨hScope, rfl⟩ ⟨hWithin, rfl⟩ more
      hMore m _ ⟨rfl, hKnows, hSame⟩
    refine ⟨more, le_refl more,
      ⟨rfl, hKnows.define s name ?_, hSame.define hScope _ _⟩,
      trivial⟩
    exact hWithin.mono fun x hKnown => hKnown.mono hMore
  lookup := by
    rintro known s _ name ⟨hScope, rfl⟩ more hMore m _
      ⟨rfl, hKnows, hSame⟩
    refine ⟨more, le_refl more, ⟨rfl, hKnows, hSame⟩, ?_⟩
    cases hFound : m.scopes.lookup s name with
    | none => exact .none
    | some v =>
        exact .some
          ⟨hKnows.bound.lookupWithin trivial hFound, rfl⟩
  printLine := by
    rintro known text more hMore m _ ⟨rfl, hKnows, hSame⟩
    exact ⟨more, le_refl more,
      ⟨rfl, hKnows.print _, ⟨hSame.scopes, hSame.outer⟩⟩,
      trivial⟩

end

------------------------------------------------------------
-- Moments That Are Known
------------------------------------------------------------

variable [Platform]

namespace Moment

variable {now : Moment}
variable {known : Seen}
variable {own : Option ScopeId}

/- Everything bound or held is built from known objects. -/
def Known
    (now : Moment)
    (known : Seen) : Prop :=
  now.machine.Knows known ∧
    ∀ v ∈ now.held, v.Within (Value.IsKnown known)

omit [Platform] in
theorem Known.of_shows
    (h : now.Known known)
    {v : Value}
    (hShown : now.Shows v) :
    v.Within (Value.IsKnown known) := by
  cases hShown with
  | plain hNone =>
      exact (Value.isPlain_of_identity? hNone).isFlat.within
        (.inl hNone)
  | bound hEntry hInside =>
      exact fun x hDeeper =>
        h.1.bound.values _ trivial _ hEntry x
          (hInside.trans hDeeper)
  | held hHeld hInside =>
      exact fun x hDeeper =>
        h.2 _ hHeld x (hInside.trans hDeeper)

/- After a computation in the frame more is known, and scopes
   are as the frame says. -/
omit [Platform] in
theorem Known.after
    (h : now.Known known)
    {x : Eval Value}
    (hFraming :
      (framing own now.machine).Relates known
        (framing own now.machine).values x x) :
    ∃ more, known ≤ more ∧ (now.after x).Known more ∧
      Machine.SameBut own now.machine
        (now.after x).machine := by
  have hLands :=
    hFraming known (le_refl known) now.machine now.machine
      ⟨rfl, h.1, Machine.SameBut.refl own now.machine⟩
  have hHeld :
      ∀ {more : Seen}, known ≤ more →
        ∀ v ∈ now.held, v.Within (Value.IsKnown more) :=
    fun hMore v hMem =>
      (h.2 v hMem).mono fun _ hKnown => hKnown.mono hMore
  unfold Moment.after
  cases hRun : x now.machine with
  | ok v m =>
      rw [hRun] at hLands
      rcases hLands with
        ⟨more, hMore, ⟨-, hKnows, hSame⟩, hWithin, -⟩
      exact ⟨more, hMore, ⟨hKnows, List.forall_mem_cons.mpr
        ⟨hWithin, hHeld hMore⟩⟩, hSame⟩
  | error f m =>
      rw [hRun] at hLands
      rcases hLands with ⟨-, more, hMore, -, hKnows, hSame⟩
      exact ⟨more, hMore, ⟨hKnows, hHeld hMore⟩, hSame⟩

theorem framing_evaluateWithin
    (base : Machine)
    (known : Seen)
    (depth : Nat)
    (node : Node)
    (scope : ScopeId) :
    (framing (some scope) base).Relates known
      (framing (some scope) base).values
      (Eval.evaluateWithin depth node scope)
      (Eval.evaluateWithin depth node scope) :=
  (framing_closed (some scope) base).evaluateWithin depth known
    node node scope scope rfl ⟨.inl rfl, rfl⟩

theorem Known.framing_apply
    (h : now.Known known)
    (depth : Nat)
    {fn : Value}
    {args : List Value}
    (hShown : ∀ v ∈ fn :: args, now.Shows v) :
    (framing none now.machine).Relates known
      (framing none now.machine).values
      (Eval.apply (M := Eval) (Eval.evaluateWithin depth)
        depth fn args)
      (Eval.apply (M := Eval) (Eval.evaluateWithin depth)
        depth fn args) := by
  rcases List.forall_mem_cons.mp hShown with ⟨hFn, hArgs⟩
  have hClosed := framing_closed none now.machine
  refine hClosed.apply (hClosed.evaluateWithin depth) depth
    ⟨h.of_shows hFn, rfl⟩ (List.forall₂_same.mpr ?_)
  exact fun v hMem => ⟨h.of_shows (hArgs v hMem), rfl⟩

/- At every moment that can be reached, some set of objects with
   different identities is all that there is. -/
theorem Reached.exists_known
    (h : now.Reached) :
    ∃ known, now.Known known := by
  induction h with
  | new =>
      exact ⟨.nothing, ⟨Machine.holds_new, nofun, nofun⟩, nofun⟩
  | hold _ hShown ih =>
      rcases ih with ⟨known, hKnown⟩
      exact ⟨known, hKnown.1, fun v hMem =>
        hKnown.of_shows (hShown v hMem)⟩
  | newScope outer _ ih =>
      rcases ih with ⟨known, hKnows, hHeld⟩
      exact ⟨known, hKnows.newScope outer, hHeld⟩
  | define scope name _ hShown ih =>
      rcases ih with ⟨known, hKnown⟩
      exact ⟨known,
        hKnown.1.define scope name (hKnown.of_shows hShown),
        hKnown.2⟩
  | clearOutput _ ih =>
      rcases ih with ⟨known, hKnows, hHeld⟩
      exact ⟨known, hKnows.print _, hHeld⟩
  | evaluate depth node scope _ ih =>
      rcases ih with ⟨known, hKnown⟩
      rcases hKnown.after
          (framing_evaluateWithin _ known depth node scope) with
        ⟨more, -, hMore, -⟩
      exact ⟨more, hMore⟩
  | apply depth _ hShown ih =>
      rcases ih with ⟨known, hKnown⟩
      rcases hKnown.after
          (hKnown.framing_apply depth hShown) with
        ⟨more, -, hMore, -⟩
      exact ⟨more, hMore⟩

------------------------------------------------------------
-- Frames
------------------------------------------------------------

/-
  From one moment to another, every scope is the same, but for
  one if for any, and even that has the same outer scope.  What
  shows afterwards as the same object as a value at hand before
  is that value, with all that is inside of it.
-/
structure Frame
    (before : Moment)
    (own : Option ScopeId)
    (after : Moment) : Prop where
  machine :
    Machine.SameBut own before.machine after.machine
  objects :
    ∀ v w, before.Shows v → after.Shows w →
      v.same w = true → w = v

/- A computation in the frame leaves everything else alone. -/
omit [Platform] in
theorem Known.frame
    (h : now.Known known)
    {x : Eval Value}
    (hFraming :
      (framing own now.machine).Relates known
        (framing own now.machine).values x x) :
    now.Frame own (now.after x) := by
  rcases h.after hFraming with ⟨more, hMore, hAfter, hSame⟩
  refine ⟨hSame, fun v w hBefore hShown hObject => ?_⟩
  have hFirst : v.IsKnown more :=
    (h.of_shows hBefore).self.mono hMore
  have hSecond : w.IsKnown more :=
    (hAfter.of_shows hShown).self
  exact (hAfter.1.eq_of_same hFirst hSecond hObject).symm

end Moment

/-
  An evaluation in a scope, whether it comes to an end or fails,
  leaves all other scopes as they are, and all objects.  The
  application of a function to arguments leaves every scope as
  it is.
-/
theorem evaluation_frame
    (now : Moment)
    (hReached : now.Reached) :
    (∀ depth node scope,
      now.Frame (some scope)
        (now.after
          (Eval.evaluateWithin depth node scope))) ∧
      ∀ depth fn args, (∀ v ∈ fn :: args, now.Shows v) →
        now.Frame none
          (now.after
            (Eval.apply (M := Eval) (Eval.evaluateWithin depth)
              depth fn args)) := by
  rcases hReached.exists_known with ⟨known, hKnown⟩
  refine ⟨fun depth node scope => ?_,
    fun depth fn args hShown => ?_⟩
  · exact hKnown.frame
      (Moment.framing_evaluateWithin _ known depth node scope)
  · exact hKnown.frame (hKnown.framing_apply depth hShown)

/- After `let a = [1];`, evaluating `push(a, 2)` and applying
   `push` leave the array as it is, and the latter all scopes. -/
omit [Platform] in
theorem evaluation_frame_push :
    letI := Platform.usual
    ∃ binding node now,
      parseWithin 9 "let a = [1];" = .ok binding ∧
        parseWithin 9 "push(a, 2)" = .ok node ∧
        now =
          ({ machine := .new, held := [] } : Moment).after
            (Eval.evaluateWithin 9 binding Machine.root) ∧
        now.Reached ∧
        now.machine.bindings Machine.root =
          [("a", .array 0 [.int 1])] ∧
        now.Frame (some Machine.root)
          (now.after
            (Eval.evaluateWithin 9 node Machine.root)) ∧
        now.Frame none
          (now.after
            (Eval.apply (M := Eval) (Eval.evaluateWithin 9) 9
              (.builtin .push) [.array 0 [.int 1], .null])) := by
  let := Platform.usual
  obtain ⟨binding, hBinding⟩ :
      ∃ p, parseWithin 9 "let a = [1];" = .ok p :=
    ⟨_, rfl⟩
  obtain ⟨node, hNode⟩ :
      ∃ p, parseWithin 9 "push(a, 2)" = .ok p :=
    ⟨_, rfl⟩
  have hReached :=
    Moment.Reached.evaluate 9 binding Machine.root .new
  have hBound :
      (Moment.after { machine := .new, held := [] }
        (Eval.evaluateWithin 9 binding
          Machine.root)).machine.bindings Machine.root =
        [("a", .array 0 [.int 1])] := by
    cases hBinding
    rfl
  refine ⟨binding, node, _, hBinding, hNode, rfl, hReached,
    hBound, (evaluation_frame _ hReached).1 9 node Machine.root,
    (evaluation_frame _ hReached).2 9 _ _ ?_⟩
  intro v hMem
  simp only [List.mem_cons, List.not_mem_nil, or_false] at hMem
  rcases hMem with rfl | rfl | rfl
  · exact .plain rfl
  · exact .bound (hBound ▸ List.mem_singleton.mpr rfl) (.self _)
  · exact .plain rfl

end Monkey
