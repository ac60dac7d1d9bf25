import Monkey.Parse.Grammar

/-
  What the steps of a parser do to its stream.

  The first section tells when a step succeeds, and how: this
  takes a parse that succeeded apart.  The second does so for a
  parse that stopped at an error.  The third evaluates steps on
  a stream whose first tokens are known: this runs a parse
  forward.

  Main declarations:
    * `Parse.bind_eq_ok`
    * `Parse.bind_failed`
    * `Parse.bind_apply`
-/

namespace Monkey

namespace Parse

variable {α β : Type}
variable {s s' : TokenStream}

------------------------------------------------------------
-- Steps That Succeed
------------------------------------------------------------

theorem bind_eq_ok
    {x : Parse α}
    {f : α → Parse β}
    {b : β} :
    (x >>= f) s = .ok b s' ↔
      ∃ a t, x s = .ok a t ∧ f a t = .ok b s' := by
  change EStateM.bind x f s = _ ↔ _
  unfold EStateM.bind
  cases hx : x s with
  | ok a t => simp [and_assoc]
  | error e t => simp

@[simp] theorem pure_eq_ok
    {a b : α} :
    (pure a : Parse α) s = .ok b s' ↔ a = b ∧ s = s' := by
  change EStateM.Result.ok a s = _ ↔ _
  simp

@[simp] theorem throw_ne_ok
    {e : ParseFailure}
    {a : α} :
    (throw e : Parse α) s = .ok a s' ↔ False := by
  change EStateM.Result.error e s = _ ↔ _
  simp

@[simp] theorem fail_ne_ok
    {cause : ParseError.Cause}
    {token : Token}
    {a : α} :
    (fail cause token : Parse α) s = .ok a s' ↔ False :=
  throw_ne_ok

@[simp] theorem current_eq_ok
    {t : Token} :
    current s = .ok t s' ↔ s.current = t ∧ s = s' := by
  change EStateM.Result.ok s.current s = _ ↔ _
  simp

@[simp] theorem peek_eq_ok
    {t : Token} :
    peek s = .ok t s' ↔ s.peek = t ∧ s = s' := by
  change EStateM.Result.ok s.peek s = _ ↔ _
  simp

@[simp] theorem advance_eq_ok
    {u : Unit} :
    advance s = .ok u s' ↔ s.advance = s' := by
  change EStateM.Result.ok () s.advance = _ ↔ _
  simp

@[simp] theorem rounds_eq_ok
    {n : Nat} :
    rounds s = .ok n s' ↔
      s.pending.length + 1 = n ∧ s = s' := by
  change EStateM.Result.ok (s.pending.length + 1) s = _ ↔ _
  simp

@[simp] theorem expect_eq_ok
    {kind : TokenKind}
    {u : Unit} :
    expect kind s = .ok u s' ↔
      s.peek.kind = kind ∧ s.advance = s' := by
  unfold expect
  rw [bind_eq_ok]
  by_cases hKind : s.peek.kind = kind
  · simp [hKind, and_assoc]
  · simp [hKind, and_assoc]

@[simp] theorem acceptOptional_eq_ok
    {kind : TokenKind}
    {u : Unit} :
    acceptOptional kind s = .ok u s' ↔
      (if s.peek.kind = kind then s.advance else s) = s' := by
  unfold acceptOptional
  rw [bind_eq_ok]
  by_cases hKind : s.peek.kind = kind
  · simp [hKind, and_assoc]
  · simp [hKind, and_assoc]

@[simp] theorem atPairsEnd_eq_ok
    {b : Bool} :
    atPairsEnd s = .ok b s' ↔
      (s.peek.kind == .rbrace || s.peek.kind == .eof) = b ∧
        s = s' := by
  unfold atPairsEnd
  rw [bind_eq_ok]
  simp [and_assoc]

------------------------------------------------------------
-- Steps Before an Error
------------------------------------------------------------

theorem bind_current
    {f : Token → Parse β} :
    (current >>= f) s = f s.current s :=
  rfl

theorem bind_peek
    {f : Token → Parse β} :
    (peek >>= f) s = f s.peek s :=
  rfl

theorem bind_advance
    {f : Unit → Parse β} :
    (advance >>= f) s = f () s.advance :=
  rfl

theorem bind_rounds
    {f : Nat → Parse β} :
    (rounds >>= f) s = f (s.pending.length + 1) s :=
  rfl

theorem bind_identifierHere
    {f : Identifier → Parse β} :
    (identifierHere >>= f) s =
      f { token := s.current, name := s.current.literal } s :=
  rfl

theorem bind_atPairsEnd
    {f : Bool → Parse β} :
    (atPairsEnd >>= f) s =
      f (s.peek.kind == .rbrace || s.peek.kind == .eof) s :=
  rfl

------------------------------------------------------------
-- Steps That Fail
------------------------------------------------------------

section

variable {e : ParseError}

/- Either the first step fails or the second one does. -/
theorem bind_failed
    {x : Parse α}
    {f : α → Parse β}
    (h : (x >>= f) s = .error (.error e) s') :
    x s = .error (.error e) s' ∨
      ∃ a t, x s = .ok a t ∧ f a t = .error (.error e) s' := by
  change EStateM.bind x f s = _ at h
  unfold EStateM.bind at h
  cases hx : x s with
  | ok a t =>
      rw [hx] at h
      exact .inr ⟨a, t, rfl, h⟩
  | error failure t =>
      rw [hx] at h
      cases h
      exact .inl rfl

/- A step before the result does fail itself. -/
theorem bind_pure_failed
    {x : Parse α}
    {g : α → β}
    (h :
      (x >>= fun a => pure (g a)) s =
        .error (.error e) s') :
    x s = .error (.error e) s' := by
  rcases bind_failed h with h | ⟨a, t, -, h⟩
  · exact h
  · cases h

/- An optional token is no reason to fail. -/
theorem bind_acceptOptional_failed
    {kind : TokenKind}
    {f : Unit → Parse β}
    (h :
      (acceptOptional kind >>= f) s = .error (.error e) s') :
    ∃ t, f () t = .error (.error e) s' := by
  rcases bind_failed h with h | ⟨_, t, -, h⟩
  · unfold acceptOptional at h
    rw [bind_peek] at h
    split at h <;> cases h
  · exact ⟨t, h⟩

/- A token that is not the expected one is at fault. -/
theorem bind_expect_failed
    {kind : TokenKind}
    {f : Unit → Parse β}
    (h : (expect kind >>= f) s = .error (.error e) s') :
    s.advance.current = e.token ∨
      s.advance.current.kind = kind ∧
        f () s.advance = .error (.error e) s' := by
  rcases bind_failed h with h | ⟨_, t, hOk, h⟩
  · unfold expect at h
    rw [bind_peek] at h
    split at h
    · cases h
    · cases h
      exact .inl rfl
  · rcases expect_eq_ok.mp hOk with ⟨hKind, rfl⟩
    exact .inr ⟨hKind, h⟩

end

------------------------------------------------------------
-- Steps on Known Tokens
------------------------------------------------------------

variable {t u final : Token}
variable {rest : List Token}

theorem bind_apply
    (x : Parse α)
    (f : α → Parse β)
    (s : TokenStream) :
    (x >>= f) s =
      match x s with
      | .ok a t => f a t
      | .error e t => .error e t := by
  change EStateM.bind x f s = _
  unfold EStateM.bind
  cases x s <;> rfl

theorem pure_apply
    (a : α)
    (s : TokenStream) :
    (pure a : Parse α) s = .ok a s :=
  rfl

theorem current_apply :
    current ⟨t :: rest, final⟩ = .ok t ⟨t :: rest, final⟩ :=
  rfl

theorem peek_apply :
    peek ⟨t :: u :: rest, final⟩ =
      .ok u ⟨t :: u :: rest, final⟩ :=
  rfl

theorem advance_apply :
    advance ⟨t :: rest, final⟩ = .ok () ⟨rest, final⟩ :=
  rfl

theorem rounds_apply
    (ts : List Token) :
    rounds ⟨ts, final⟩ = .ok (ts.length + 1) ⟨ts, final⟩ :=
  rfl

theorem expect_apply
    {kind : TokenKind}
    (hKind : u.kind = kind) :
    expect kind ⟨t :: u :: rest, final⟩ =
      .ok () ⟨u :: rest, final⟩ := by
  rw [expect_eq_ok]
  exact ⟨hKind, rfl⟩

theorem acceptOptional_apply
    {kind : TokenKind}
    (hKind : u.kind = kind) :
    acceptOptional kind ⟨t :: u :: rest, final⟩ =
      .ok () ⟨u :: rest, final⟩ := by
  rw [acceptOptional_eq_ok]
  exact if_pos hKind

theorem acceptOptional_apply_of_ne
    {kind : TokenKind}
    (hKind : u.kind ≠ kind) :
    acceptOptional kind ⟨t :: u :: rest, final⟩ =
      .ok () ⟨t :: u :: rest, final⟩ := by
  rw [acceptOptional_eq_ok]
  exact if_neg hKind

end Parse

end Monkey
