import Mathlib.Data.List.Forall2
import Monkey.Eval.Node
import Monkey.Proofs.Syntax.MapNames
import Monkey.Proofs.Value.Within

/-
  Nodes and values of the same form.

  Two nodes match if they are of the same kind and their parts
  are alike, in a sense that is left open; two values match in
  the same way, whatever their identities.  Operators do not tell
  matching values apart, and indexing takes them to like values.

  Main declarations:
    * `Node.Matches`
    * `Node.matches_mapNames`
    * `Value.Matches`
    * `Value.Matches.applyInfix_eq`
    * `Value.Matches.applyIndex`
    * `Form`
-/

namespace Monkey

------------------------------------------------------------
-- The Same Form
------------------------------------------------------------

/- Nodes of the same form with like parts, whatever tokens they
   keep. -/
inductive Node.Matches
    (names : Identifier → Identifier → Prop)
    (like : Node → Node → Prop) :
    Node → Node → Prop
  | identifier
      {id id' : Identifier}
      (hName : names id id') :
      Matches names like (.identifier id) (.identifier id')
  | integer
      (t t' : Token)
      (n : Int) :
      Matches names like (.integer t n) (.integer t' n)
  | boolean
      (t t' : Token)
      (b : Bool) :
      Matches names like (.boolean t b) (.boolean t' b)
  | string
      (t t' : Token)
      (s : String) :
      Matches names like (.string t s) (.string t' s)
  | prefixOp
      (t t' : Token)
      (operator : String)
      {right right' : Node}
      (hRight : like right right') :
      Matches names like (.prefixOp t operator right)
        (.prefixOp t' operator right')
  | infixOp
      (t t' : Token)
      (operator : String)
      {left right left' right' : Node}
      (hLeft : like left left')
      (hRight : like right right') :
      Matches names like (.infixOp t left operator right)
        (.infixOp t' left' operator right')
  | ifElse
      (t t' : Token)
      {condition consequence : Node}
      {condition' consequence' : Node}
      {alternative alternative' : Option Node}
      (hCondition : like condition condition')
      (hConsequence : like consequence consequence')
      (hAlternative :
        Option.Rel like alternative alternative') :
      Matches names like
        (.ifElse t condition consequence alternative)
        (.ifElse t' condition' consequence' alternative')
  | function
      (t t' : Token)
      {params params' : List Identifier}
      {body body' : Node}
      (hParams : List.Forall₂ names params params')
      (hBody : like body body') :
      Matches names like (.function t params body)
        (.function t' params' body')
  | call
      (t t' : Token)
      {callee callee' : Node}
      {args args' : List Node}
      (hCallee : like callee callee')
      (hArgs : List.Forall₂ like args args') :
      Matches names like (.call t callee args)
        (.call t' callee' args')
  | array
      (t t' : Token)
      {elements elements' : List Node}
      (hElements : List.Forall₂ like elements elements') :
      Matches names like (.array t elements) (.array t' elements')
  | index
      (t t' : Token)
      {left subscript left' subscript' : Node}
      (hLeft : like left left')
      (hSubscript : like subscript subscript') :
      Matches names like (.index t left subscript)
        (.index t' left' subscript')
  | hash
      (t t' : Token)
      {pairs pairs' : List (Node × Node)}
      (hPairs :
        List.Forall₂
          (fun p p' => like p.1 p'.1 ∧ like p.2 p'.2)
          pairs pairs') :
      Matches names like (.hash t pairs) (.hash t' pairs')
  | letStmt
      (t t' : Token)
      {name name' : Identifier}
      {value value' : Node}
      (hName : names name name')
      (hValue : like value value') :
      Matches names like (.letStmt t name value)
        (.letStmt t' name' value')
  | returnStmt
      (t t' : Token)
      {value value' : Option Node}
      (hValue : Option.Rel like value value') :
      Matches names like (.returnStmt t value)
        (.returnStmt t' value')
  | exprStmt
      (t t' : Token)
      {e e' : Node}
      (hExpression : like e e') :
      Matches names like (.exprStmt t e) (.exprStmt t' e')
  | block
      (t t' : Token)
      {body body' : List Node}
      (hBody : List.Forall₂ like body body') :
      Matches names like (.block t body) (.block t' body')
  | program
      {body body' : List Node}
      (hBody : List.Forall₂ like body body') :
      Matches names like (.program body) (.program body')
  | foreign : Matches names like .foreign .foreign

/- A list next to its images consists of the images. -/
theorem forall₂_image
    {α β : Type}
    {f : α → β}
    {as : List α}
    {bs : List β} :
    List.Forall₂ (fun a b => b = f a) as bs ↔
      bs = as.map f := by
  constructor
  · intro h
    induction h with
    | nil => rfl
    | cons hFirst _ ih => rw [hFirst, ih, List.map_cons]
  · rintro rfl
    rw [List.forall₂_map_right_iff]
    exact List.forall₂_same.mpr fun _ _ => rfl

/- A node has the same form with other names. -/
theorem Node.matches_mapNames
    (names : Identifier → Identifier)
    (f g : Token → Token)
    (n : Node) :
    Node.Matches (fun id id' => id' = names id)
      (fun n n' => n' = n.mapNames names f g) n
      (n.mapNames names f g) := by
  have hList :
      ∀ ns : List Node,
        List.Forall₂ (fun n n' => n' = n.mapNames names f g) ns
          (ns.map (mapNames names f g)) :=
    fun _ => forall₂_image.mpr rfl
  have hOption :
      ∀ value : Option Node,
        Option.Rel (fun n n' => n' = n.mapNames names f g)
          value (value.map (mapNames names f g)) := by
    rintro (_ | value)
    · exact .none
    · exact .some rfl
  cases n with
  | identifier => exact .identifier rfl
  | integer => exact .integer ..
  | boolean => exact .boolean ..
  | string => exact .string ..
  | prefixOp => exact .prefixOp _ _ _ rfl
  | infixOp => exact .infixOp _ _ _ rfl rfl
  | ifElse =>
      rw [mapNames_ifElse]
      exact .ifElse _ _ rfl rfl (hOption _)
  | function => exact .function _ _ (forall₂_image.mpr rfl) rfl
  | call =>
      rw [mapNames, mapNamesList_eq_map]
      exact .call _ _ rfl (hList _)
  | array =>
      rw [mapNames, mapNamesList_eq_map]
      exact .array _ _ (hList _)
  | index => exact .index _ _ rfl rfl
  | hash =>
      rw [mapNames, mapNamesPairs_eq_map]
      refine .hash _ _ ?_
      rw [List.forall₂_map_right_iff]
      exact List.forall₂_same.mpr fun _ _ => ⟨rfl, rfl⟩
  | letStmt => exact .letStmt _ _ rfl rfl
  | returnStmt =>
      rw [mapNames_returnStmt]
      exact .returnStmt _ _ (hOption _)
  | exprStmt => exact .exprStmt _ _ rfl
  | block =>
      rw [mapNames, mapNamesList_eq_map]
      exact .block _ _ (hList _)
  | program =>
      rw [mapNames, mapNamesList_eq_map]
      exact .program (hList _)
  | foreign => exact .foreign

namespace Value

/- The identity of a value that is an object of its own. -/
def identity? : Value → Option Identity
  | returned id _ => some id
  | error id _ => some id
  | function id _ _ _ => some id
  | array id _ => some id
  | hash id _ => some id
  | hostBool id _ => some id
  | hostNull id => some id
  | hostObject id => some id
  | _ => none

/- Values that are no objects made by an evaluation. -/
def IsPlain : Value → Prop
  | returned _ _ => False
  | error _ _ => False
  | function _ _ _ _ => False
  | array _ _ => False
  | hash _ _ => False
  | _ => True

theorem IsPlain.isFlat
    {v : Value}
    (h : v.IsPlain) :
    v.IsFlat := by
  cases v with
  | returned | array | hash => exact h.elim
  | _ => trivial

theorem isPlain_of_identity?
    {v : Value}
    (h : v.identity? = none) :
    v.IsPlain := by
  cases v with
  | returned | error | function | array | hash => cases h
  | _ => trivial

/- Entries of two hashes with the same key and like parts. -/
def LikeEntries
    (like : Value → Value → Prop)
    (e e' : HashKey × HashPair Value) : Prop :=
  e.1 = e'.1 ∧ like e.2.key e'.2.key ∧
    like e.2.value e'.2.value

/- Values of the same form with like parts, whatever their
   identities. -/
inductive Matches
    (like : Value → Value → Prop)
    (names : Identifier → Identifier → Prop)
    (code : Node → Node → Prop)
    (outers : ScopeId → ScopeId → Prop)
    (messages : Identity → String → String → Prop) :
    Value → Value → Prop
  | plain
      {v : Value}
      (hPlain : v.IsPlain) :
      Matches like names code outers messages v v
  | returned
      (id id' : Identity)
      {v v' : Value}
      (hValue : like v v') :
      Matches like names code outers messages
        (.returned id v) (.returned id' v')
  | error
      (id id' : Identity)
      {message message' : String}
      (hMessage : messages id message message') :
      Matches like names code outers messages
        (.error id message) (.error id' message')
  | function
      (id id' : Identity)
      {params params' : List Identifier}
      {body body' : Node}
      {outer outer' : ScopeId}
      (hParams : List.Forall₂ names params params')
      (hBody : code body body')
      (hOuter : outers outer outer') :
      Matches like names code outers messages
        (.function id params body outer)
        (.function id' params' body' outer')
  | array
      (id id' : Identity)
      {elements elements' : List Value}
      (hElements : List.Forall₂ like elements elements') :
      Matches like names code outers messages
        (.array id elements) (.array id' elements')
  | hash
      (id id' : Identity)
      {entries entries' : List (HashKey × HashPair Value)}
      (hEntries :
        List.Forall₂ (LikeEntries like) entries entries') :
      Matches like names code outers messages
        (.hash id entries) (.hash id' entries')

namespace Matches

variable {like : Value → Value → Prop}
variable {names : Identifier → Identifier → Prop}
variable {code : Node → Node → Prop}
variable {outers : ScopeId → ScopeId → Prop}
variable {messages : Identity → String → String → Prop}
variable {v v' : Value}

theorem type_eq
    (h : Matches like names code outers messages v v') :
    v.type = v'.type := by
  cases h <;> rfl

theorem isTruthy_eq
    (h : Matches like names code outers messages v v') :
    v.isTruthy = v'.isTruthy := by
  cases h <;> rfl

theorem isError_eq
    (h : Matches like names code outers messages v v') :
    v.isError = v'.isError := by
  cases h <;> rfl

theorem isFinal_eq
    (h : Matches like names code outers messages v v') :
    v.isFinal = v'.isFinal := by
  cases h <;> rfl

theorem hashKey?_eq
    [Platform]
    (h : Matches like names code outers messages v v') :
    v.hashKey? = v'.hashKey? := by
  cases h <;> rfl

end Matches

end Value

/- Two results of the same kind, with like parts. -/
inductive LikeResults
    {ε α β : Type}
    (errors : ε → ε → Prop)
    (good : α → β → Prop) :
    Except ε α → Except ε β → Prop
  | ok
      {a : α}
      {b : β}
      (h : good a b) :
      LikeResults errors good (.ok a) (.ok b)
  | error
      {e e' : ε}
      (h : errors e e') :
      LikeResults errors good (.error e) (.error e')

/- Two results are both good, or both the same error. -/
theorem LikeResults.ok_or_error
    {ε α β : Type}
    {good : α → β → Prop}
    {r : Except ε α}
    {r' : Except ε β}
    (h : LikeResults Eq good r r') :
    (∃ a b, r = .ok a ∧ r' = .ok b ∧ good a b) ∨
      ∃ e, r = .error e ∧ r' = .error e := by
  cases h with
  | ok h => exact .inl ⟨_, _, rfl, rfl, h⟩
  | error h =>
      cases h
      exact .inr ⟨_, rfl, rfl⟩

/- What follows like results is alike, or the same error. -/
theorem LikeResults.bind
    {ε α β γ δ : Type}
    {good : α → β → Prop}
    {good' : γ → δ → Prop}
    {r : Except ε α}
    {r' : Except ε β}
    {f : α → Except ε γ}
    {g : β → Except ε δ}
    (h : LikeResults Eq good r r')
    (hNext :
      ∀ a b, good a b → LikeResults Eq good' (f a) (g b)) :
    LikeResults Eq good' (r >>= f) (r' >>= g) := by
  cases h with
  | ok hGood => exact hNext _ _ hGood
  | error hSame => exact .error hSame

/- Like results for each element of a list are like results for
   the list. -/
theorem LikeResults.mapM
    {ε α β γ : Type}
    {good : β → γ → Prop}
    {f : α → Except ε β}
    {g : α → Except ε γ}
    (xs : List α)
    (h : ∀ x ∈ xs, LikeResults Eq good (f x) (g x)) :
    LikeResults Eq (List.Forall₂ good) (xs.mapM f)
      (xs.mapM g) := by
  induction xs with
  | nil => exact .ok .nil
  | cons x rest ih =>
      rcases List.forall_mem_cons.mp h with ⟨hFirst, hRest⟩
      rw [List.mapM_cons, List.mapM_cons]
      refine hFirst.bind fun a b hGood => ?_
      exact (ih hRest).bind fun as bs hOthers =>
        .ok (.cons hGood hOthers)

/- Results are the same if they have the same part. -/
theorem likeResults_eq_iff
    {ε α : Type}
    {r r' : Except ε α} :
    LikeResults Eq (fun a b => b = a) r r' ↔ r' = r := by
  constructor
  · rintro (hSame | hSame) <;> rw [hSame]
  · rintro rfl
    cases r' with
    | ok => exact .ok rfl
    | error => exact .error rfl

/- Like results may be the same on a condition. -/
theorem LikeResults.and_same
    {ε α : Type}
    {good : α → α → Prop}
    {when : Prop}
    {r r' : Except ε α}
    (h : LikeResults Eq good r r')
    (hSame : when → r' = r) :
    LikeResults Eq (fun a b => good a b ∧ (when → b = a)) r
      r' := by
  cases h with
  | ok hGood =>
      exact .ok ⟨hGood, fun hWhen => Except.ok.inj (hSame hWhen)⟩
  | error hEqual => exact .error hEqual

------------------------------------------------------------
-- Operators and Indexing
------------------------------------------------------------

/- A complaint that has no name of the program in it. -/
def Complaint.Nameless : Complaint → Prop
  | notFound _ => False
  | _ => True

namespace Value

/- Operators give no objects. -/
theorem identity?_of_applyPrefix
    {operator : String}
    {r v : Value}
    (h : r.applyPrefix operator = .ok v) :
    v.identity? = none := by
  unfold applyPrefix at h
  split at h
  · cases h
    rfl
  · split at h
    · cases h
      rfl
    · cases h
  · cases h

theorem identity?_of_applyInteger
    {operator : String}
    {a b : Int}
    {v : Value}
    (h : applyInteger operator a b = .ok v) :
    v.identity? = none := by
  unfold applyInteger at h
  split at h
  case h_4 => split at h <;> cases h; rfl
  case h_9 => cases h
  all_goals
    cases h
    rfl

theorem identity?_of_applyInfix
    {operator : String}
    {l r v : Value}
    (h : l.applyInfix operator r = .ok v) :
    v.identity? = none := by
  unfold applyInfix at h
  split at h
  · exact identity?_of_applyInteger h
  · unfold applyText at h
    split at h
    · cases h
      rfl
    · cases h
  · unfold applyObject at h
    split at h
    · cases h
      rfl
    · cases h
      rfl
    · split at h <;> cases h

/- Operators and indexing do not complain about names. -/
theorem nameless_of_applyPrefix
    {operator : String}
    {r : Value}
    {c : Complaint}
    (h : r.applyPrefix operator = .error c) :
    c.Nameless := by
  unfold applyPrefix at h
  split at h
  · cases h
  · split at h <;> cases h
    trivial
  · cases h
    trivial

theorem nameless_of_applyInfix
    {operator : String}
    {l r : Value}
    {c : Complaint}
    (h : l.applyInfix operator r = .error c) :
    c.Nameless := by
  unfold applyInfix at h
  split at h
  · unfold applyInteger at h
    split at h
    case h_4 => split at h <;> cases h; trivial
    case h_9 => cases h; trivial
    all_goals cases h
  · unfold applyText at h
    split at h <;> cases h
    trivial
  · unfold applyObject at h
    split at h
    · cases h
    · cases h
    · split at h <;> cases h <;> trivial

theorem nameless_of_applyIndex
    [Platform]
    {l i : Value}
    {c : Complaint}
    (h : l.applyIndex i = .ok (.error c)) :
    c.Nameless := by
  unfold applyIndex at h
  split at h
  · cases h
  · split at h
    next made _ => cases made <;> cases h
    next =>
      cases h
      trivial
  · cases h
    trivial

variable {like : Value → Value → Prop}
variable {names : Identifier → Identifier → Prop}
variable {code : Node → Node → Prop}
variable {outers : ScopeId → ScopeId → Prop}
variable {messages : Identity → String → String → Prop}

theorem Matches.applyPrefix_eq
    {r r' : Value}
    (operator : String)
    (h : Matches like names code outers messages r r') :
    r.applyPrefix operator = r'.applyPrefix operator := by
  have hType := h.type_eq
  have hTruthy := h.isTruthy_eq
  unfold applyPrefix
  split
  · rw [hTruthy]
  · cases h <;> rfl
  · rw [hType]

theorem Matches.applyObject_eq
    {l l' r r' : Value}
    (operator : String)
    (hLeft : Matches like names code outers messages l l')
    (hRight : Matches like names code outers messages r r')
    (hSame : l.same r = l'.same r') :
    applyObject operator l r = applyObject operator l' r' := by
  unfold applyObject
  rw [hLeft.type_eq, hRight.type_eq, hSame]

theorem Matches.applyInfix_eq
    {l l' r r' : Value}
    (operator : String)
    (hLeft : Matches like names code outers messages l l')
    (hRight : Matches like names code outers messages r r')
    (hSame : l.same r = l'.same r') :
    l.applyInfix operator r = l'.applyInfix operator r' := by
  have hObject := hLeft.applyObject_eq operator hRight hSame
  cases hLeft with
  | plain =>
      cases hRight with
      | plain => rfl
      | _ => cases l <;> exact hObject
  | _ => exact hObject

/- Like elements stand at the same place. -/
theorem elementAt_like
    {es es' : List Value}
    (h : List.Forall₂ like es es')
    (hNull : like .null .null)
    (i : Int) :
    like (elementAt es i) (elementAt es' i) := by
  unfold elementAt
  split
  · exact hNull
  · generalize i.toNat = n
    induction h generalizing n with
    | nil => exact hNull
    | cons hFirst _ ih =>
        cases n with
        | zero => exact hFirst
        | succ n => exact ih n

/- A key is in both of two like tables, with like values, or in
   none. -/
theorem find?_like
    {entries entries' : List (HashKey × HashPair Value)}
    (h : List.Forall₂ (LikeEntries like) entries entries')
    (key : HashKey) :
    Option.Rel (fun p p' => like p.value p'.value)
      (Table.find? key entries)
      (Table.find? key entries') := by
  induction h with
  | nil => exact .none
  | cons hFirst _ ih =>
      unfold Table.find?
      rw [← hFirst.1]
      split
      · exact .some hFirst.2.2
      · exact ih

/- The last elements of like lists are alike. -/
theorem getLastD_like
    {es es' : List Value}
    {v v' : Value}
    (h : List.Forall₂ like es es')
    (hNone : like v v') :
    like (es.getLastD v) (es'.getLastD v') := by
  induction h generalizing v v' with
  | nil => exact hNone
  | cons hFirst _ ih =>
      rw [List.getLastD_cons, List.getLastD_cons]
      exact ih hFirst

/- Like values stand at the same key. -/
theorem entryAt_like
    {entries entries' : List (HashKey × HashPair Value)}
    (h : List.Forall₂ (LikeEntries like) entries entries')
    (hNull : like .null .null)
    (key : HashKey) :
    like (entryAt entries key) (entryAt entries' key) := by
  have hFound := find?_like h key
  unfold entryAt
  generalize Table.find? key entries = p at hFound ⊢
  generalize Table.find? key entries' = p' at hFound ⊢
  cases hFound with
  | none => exact hNull
  | some hValue => exact hValue

/- Like tables stay so when like pairs are written for the same
   key. -/
theorem insert_like
    {entries entries' : List (HashKey × HashPair Value)}
    (h : List.Forall₂ (LikeEntries like) entries entries')
    {k : HashKey}
    {p p' : HashPair Value}
    (hPair : LikeEntries like (k, p) (k, p')) :
    List.Forall₂ (LikeEntries like)
      (Table.insert k p entries)
      (Table.insert k p' entries') := by
  induction h with
  | nil => exact .cons hPair .nil
  | @cons e e' rest rest' hFirst hRest ih =>
      unfold Table.insert
      rw [← hFirst.1]
      split
      · exact .cons hPair hRest
      · exact .cons hFirst ih

/- Indexing takes matching values to like ones, or complains or
   fails in the same way. -/
theorem Matches.applyIndex
    [Platform]
    {l l' i i' : Value}
    (hLeft : Matches like names code outers messages l l')
    (hSubscript : Matches like names code outers messages i i')
    (hNull : like .null .null) :
    LikeResults Eq (LikeResults Eq like) (l.applyIndex i)
      (l'.applyIndex i') := by
  cases hLeft with
  | array id id' hElements =>
      cases hSubscript with
      | @plain i hPlain =>
          cases i with
          | int n =>
              exact .ok (.ok (elementAt_like hElements hNull n))
          | _ => exact .ok (.error rfl)
      | _ => exact .ok (.error rfl)
  | hash id id' hEntries =>
      have hType := hSubscript.type_eq
      have hKey := hSubscript.hashKey?_eq
      simp only [Value.applyIndex]
      rw [hKey, hType]
      split
      next made _ =>
        cases made with
        | error f => exact .error rfl
        | ok key => exact .ok (.ok (entryAt_like hEntries hNull key))
      next => exact .ok (.error rfl)
  | plain hPlain =>
      cases l with
      | array => exact hPlain.elim
      | hash => exact hPlain.elim
      | _ => exact .ok (.error rfl)
  | _ => exact .ok (.error rfl)

end Value

------------------------------------------------------------
-- Arguments of Builtin Functions
------------------------------------------------------------

namespace Builtin

variable {like : Value → Value → Prop}
variable {names : Identifier → Identifier → Prop}
variable {code : Node → Node → Prop}
variable {outers : ScopeId → ScopeId → Prop}
variable {messages : Identity → String → String → Prop}
variable {args args' : List Value}

/- The elements of matching arguments are alike. -/
theorem elementsOf_like
    (b : Builtin)
    {v v' : Value}
    (h : Value.Matches like names code outers messages v v') :
    LikeResults Eq (List.Forall₂ like) (b.elementsOf v)
      (b.elementsOf v') := by
  cases h with
  | array id id' hElements => exact .ok hElements
  | @plain v hPlain =>
      cases v with
      | array => exact hPlain.elim
      | _ => exact .error rfl
  | _ => exact .error rfl

variable
  (hMatch :
    ∀ v v', like v v' →
      Value.Matches like names code outers messages v v')
variable (hArgs : List.Forall₂ like args args')

include hMatch hArgs

theorem oneArray_like
    (b : Builtin) :
    LikeResults Eq (List.Forall₂ like) (b.oneArray args)
      (b.oneArray args') := by
  have hCount := hArgs.length_eq
  cases hArgs with
  | nil => exact .error rfl
  | cons hFirst hRest =>
      cases hRest with
      | nil => exact elementsOf_like b (hMatch _ _ hFirst)
      | cons _ _ =>
          refine .error ?_
          rw [hCount]

theorem arrayAndValue_like
    (b : Builtin) :
    LikeResults Eq
      (fun p p' => List.Forall₂ like p.1 p'.1 ∧ like p.2 p'.2)
      (b.arrayAndValue args) (b.arrayAndValue args') := by
  have hCount := hArgs.length_eq
  rcases hArgs with _ | ⟨hFirst, _ | ⟨hSecond, _ | _⟩⟩
  · exact .error rfl
  · exact .error rfl
  · rcases (elementsOf_like b
        (hMatch _ _ hFirst)).ok_or_error with
      ⟨es, es', hRun, hRun', hElements⟩ | ⟨e, hRun, hRun'⟩
    · simp only [arrayAndValue, hRun, hRun']
      exact .ok ⟨hElements, hSecond⟩
    · simp only [arrayAndValue, hRun, hRun']
      exact .error rfl
  · refine .error ?_
    rw [hCount]

theorem runLen_like
    (hPlain : ∀ v : Value, v.identity? = none → like v v) :
    LikeResults Eq like (runLen args) (runLen args') := by
  have hCount := hArgs.length_eq
  cases hArgs with
  | nil => exact .error rfl
  | @cons v v' _ _ hFirst hRest =>
      cases hRest with
      | cons _ _ =>
          refine .error ?_
          rw [hCount]
      | nil =>
          cases hMatch v v' hFirst with
          | plain =>
              cases v with
              | str s => exact .ok (hPlain _ rfl)
              | _ => exact .error rfl
          | _ => exact .error rfl

end Builtin

------------------------------------------------------------
-- New Objects
------------------------------------------------------------

/- What a new object is to be, but for its identity. -/
inductive Form where
  | returned (value : Value)
  | error (message : String)
  | function
      (params : List Identifier)
      (body : Node)
      (scope : ScopeId)
  | array (elements : List Value)
  | hash (entries : List (HashKey × HashPair Value))

namespace Form

/- The object of a form with an identity. -/
def object (id : Identity) : Form → Value
  | returned v => .returned id v
  | error message => .error id message
  | function params body scope =>
      .function id params body scope
  | array elements => .array id elements
  | hash entries => .hash id entries

/- A new object of a form has its identity. -/
theorem identity?_object
    (form : Form)
    (id : Identity) :
    (form.object id).identity? = some id := by
  cases form <;> rfl

end Form

/- Make a new object. -/
def Eval.make (form : Form) : Eval Value := do
  return form.object (← fresh)

end Monkey
