import ObjectPascal.Proofs.Extension
import ObjectPascal.Proofs.Regime

/-!
Which methods make and destroy the objects of a class, after any history of fields, headers and
implementations. A class that keeps these two methods by name has the same ones as a class that
keeps the methods themselves.
-/

namespace ObjectPascal

open Script

/-! Histories. -/

/-- What is done to a class while it comes about. -/
inductive ClassOperation where
  | field (name : String) (visibility : Visibility)
  | declare (name : String) (kind : MethodKind) (params : List String) (visibility : Visibility)
  | attach (method : Method)

namespace ClassOperation

def apply (c : Class) : ClassOperation → Class
  | field name visibility => c.addField name visibility
  | declare name kind params visibility => c.declareMethod name kind params visibility
  | attach method => c.attachMethod method

/-- The key of the method that an operation is about. -/
def key? : ClassOperation → Option Key
  | field .. => none
  | declare name .. => some (Key.of name)
  | attach method => some method.key

/-- The method, by its key, that an operation makes the one of its class for a kind: an
implementation of the kind does so, and a header of the kind if no earlier operation was about a
method of its name. -/
def tagged? (kind : MethodKind) (earlier : List ClassOperation) : ClassOperation → Option Key
  | field .. => none
  | declare name k .. =>
    if k = kind ∧ some (Key.of name) ∉ earlier.map key? then some (Key.of name) else none
  | attach method => if method.kind = kind then some method.key else none

def implements? (k : Key) : ClassOperation → Option Method
  | attach method => if method.key = k then some method else none
  | _ => none

/-- The method without a body that a header stands for in a class of some name. -/
def announces? (className : String) (k : Key) : ClassOperation → Option Method
  | declare name kind params _ =>
    if Key.of name = k then some ⟨className, name, kind, kind = .function, params, none⟩ else none
  | _ => none

end ClassOperation

/-- What has been done to a class, latest first. -/
abbrev ClassHistory := List ClassOperation

namespace ClassHistory

/-- The key of the last method that was made the one of its class for a kind. -/
def lastTagged? (kind : MethodKind) : ClassHistory → Option Key
  | [] => none
  | op :: earlier => (op.tagged? kind earlier).or (lastTagged? kind earlier)

/-- The latest implementation under a key, or else what the first header announces. -/
def entry? (className : String) (k : Key) (h : ClassHistory) : Option Method :=
  (h.findSome? (ClassOperation.implements? k)).or
    (h.reverse.findSome? (ClassOperation.announces? className k))

end ClassHistory

/-- The class of a name after a history. -/
def Class.after (name : String) : ClassHistory → Class
  | [] => { name }
  | op :: earlier => op.apply (after name earlier)

/-! Keeping the methods themselves. -/

/-- A method as one entry of a table: entries with the same stamp are the same entry. -/
structure StampedMethod where
  stamp : Nat
  method : Method

/-- The methods of a class, with its constructor and destructor among them. -/
structure LinkedMethods where
  entries : Table StampedMethod := {}
  constructor : Option StampedMethod := none
  destructor : Option StampedMethod := none
  clock : Nat := 0

namespace LinkedMethods

/-- Whether what is bound is the very entry that is replaced. -/
def isReplaced (replaced bound : Option StampedMethod) : Bool :=
  match replaced, bound with
  | some r, some b => r.stamp = b.stamp
  | _, _ => false

/-- What is bound for a kind once an entry is in the place of another: the new entry if it is of
the kind, or if the one that it replaces was bound. -/
def relink (kind : MethodKind) (replaced : Option StampedMethod) (e : StampedMethod)
    (bound : Option StampedMethod) : Option StampedMethod :=
  if e.method.kind = kind ∨ isReplaced replaced bound then some e else bound

/-- Puts a method in, in the place of the one of its name if there is one. -/
def put (l : LinkedMethods) (m : Method) : LinkedMethods :=
  let replaced := l.entries.find? m.key
  let e : StampedMethod := ⟨l.clock, m⟩
  { entries := l.entries.insert m.key e
    constructor := relink .constructor replaced e l.constructor
    destructor := relink .destructor replaced e l.destructor
    clock := l.clock + 1 }

def apply (className : String) (l : LinkedMethods) : ClassOperation → LinkedMethods
  | .field .. => l
  | .declare name kind params _ =>
    if l.entries.contains (Key.of name) then l
    else l.put ⟨className, name, kind, kind = .function, params, none⟩
  | .attach method => l.put method

/-- The methods of a class of some name after a history. -/
def after (className : String) : ClassHistory → LinkedMethods
  | [] => {}
  | op :: earlier => (after className earlier).apply className op

/-- Every entry is under its own key and was stamped in the past, and no two entries have the same
stamp. -/
structure Tidy (l : LinkedMethods) : Prop where
  key : ∀ k e, l.entries.find? k = some e → e.method.key = k
  past : ∀ k e, l.entries.find? k = some e → e.stamp < l.clock
  distinct : ∀ k k' e e', l.entries.find? k = some e → l.entries.find? k' = some e' →
    e.stamp = e'.stamp → k = k'

variable {l : LinkedMethods}

theorem find?_put (l : LinkedMethods) (m : Method) (k : Key) :
    (l.put m).entries.find? k = if k = m.key then some ⟨l.clock, m⟩ else l.entries.find? k := by
  unfold put
  split
  · next h => rw [h, Table.find?_insert_self]
  · next h => rw [Table.find?_insert_of_ne _ _ h]

theorem Tidy.put (h : l.Tidy) (m : Method) : (l.put m).Tidy := by
  refine ⟨?_, ?_, ?_⟩
  · intro k e he
    rw [find?_put] at he
    split at he
    · next hk =>
      cases he
      exact hk.symm
    · exact h.key k e he
  · intro k e he
    rw [find?_put] at he
    change e.stamp < l.clock + 1
    split at he
    · cases he
      exact Nat.lt_succ_self _
    · exact Nat.lt_succ_of_lt (h.past k e he)
  · intro k k' e e' he he' hs
    rw [find?_put] at he he'
    split at he
    · next hk =>
      split at he'
      · next hk' => rw [hk, hk']
      · -- the new stamp is that of no old entry
        cases he
        have hpast := h.past k' e' he'
        rw [← hs] at hpast
        exact absurd hpast (Nat.lt_irrefl _)
    · split at he'
      · cases he'
        have hpast := h.past k e he
        rw [hs] at hpast
        exact absurd hpast (Nat.lt_irrefl _)
      · exact h.distinct k k' e e' he he' hs

theorem Tidy.apply (h : l.Tidy) (className : String) (op : ClassOperation) :
    (l.apply className op).Tidy := by
  cases op with
  | field => exact h
  | declare name kind params visibility =>
    unfold LinkedMethods.apply
    dsimp only
    split
    · exact h
    · exact h.put _
  | attach method => exact h.put method

theorem contains_put (l : LinkedMethods) (m : Method) (k : Key) :
    (l.put m).entries.contains k ↔ some k = some m.key ∨ l.entries.contains k := by
  unfold Table.contains
  rw [find?_put]
  by_cases hk : k = m.key <;> simp [hk]

theorem contains_apply (l : LinkedMethods) (className : String) (op : ClassOperation) (k : Key) :
    (l.apply className op).entries.contains k ↔ some k = op.key? ∨ l.entries.contains k := by
  cases op with
  | field => simp [apply, ClassOperation.key?]
  | declare name kind params visibility =>
    unfold apply
    dsimp only [ClassOperation.key?]
    split
    · next hc =>
      refine ⟨.inr, ?_⟩
      rintro (hk | hk)
      · cases hk
        exact hc
      · exact hk
    · exact contains_put l _ k
  | attach method => exact contains_put l method k

/-- What is bound for a kind is the entry of the method that was last made the one for it. -/
structure Bound (kind : MethodKind) (last : Option Key) (l : LinkedMethods)
    (bound : Option StampedMethod) : Prop where
  entry : bound = last.bind l.entries.find?
  isSome : ∀ k, last = some k → l.entries.contains k

/-- Only the entry that is bound is the very one that is bound. -/
theorem Bound.isReplaced_iff (h : l.Tidy) {kind : MethodKind} {last : Option Key}
    {bound : Option StampedMethod} (hb : Bound kind last l bound) (k : Key) :
    isReplaced (l.entries.find? k) bound ↔ last = some k := by
  obtain ⟨rfl, hsome⟩ := hb
  cases last with
  | none => cases hr : l.entries.find? k <;> simp [isReplaced]
  | some k' =>
    obtain ⟨b, hb⟩ := Option.isSome_iff_exists.mp (hsome k' rfl)
    change isReplaced (l.entries.find? k) (l.entries.find? k') ↔ _
    cases hr : l.entries.find? k with
    | none =>
      refine ⟨nofun, ?_⟩
      intro hk
      cases hk
      rw [hr] at hb
      cases hb
    | some r =>
      rw [hb]
      refine ⟨?_, ?_⟩
      · intro hs
        rw [h.distinct k k' r b hr hb (of_decide_eq_true hs)]
      · intro hk
        cases hk
        rw [hr] at hb
        cases hb
        exact decide_eq_true rfl

/-- A method that is put in is bound if it is of the kind, or comes in the place of the one that
is bound; else what is bound stays. -/
theorem Bound.put (h : l.Tidy) {kind : MethodKind} {last : Option Key}
    {bound : Option StampedMethod} (hb : Bound kind last l bound) (m : Method) :
    Bound kind ((if m.kind = kind then some m.key else none).or last) (l.put m)
      (relink kind (l.entries.find? m.key) ⟨l.clock, m⟩ bound) := by
  have hreplaced := hb.isReplaced_iff h m.key
  refine ⟨?_, ?_⟩
  · unfold relink
    by_cases hk : m.kind = kind
    · rw [if_pos (.inl hk), if_pos hk]
      exact ((find?_put l m m.key).trans (if_pos rfl)).symm
    · rw [if_neg hk, Option.none_or]
      by_cases hl : last = some m.key
      · rw [if_pos (.inr (hreplaced.mpr hl)), hl]
        exact ((find?_put l m m.key).trans (if_pos rfl)).symm
      · have hneither : ¬ (m.kind = kind ∨ isReplaced (l.entries.find? m.key) bound) := by
          rintro (hk' | hr)
          · exact hk hk'
          · exact hl (hreplaced.mp hr)
        rw [if_neg hneither, hb.entry]
        cases last with
        | none => rfl
        | some k =>
          have hne : k ≠ m.key := fun he => hl (congrArg some he)
          exact ((find?_put l m k).trans (if_neg hne)).symm
  · intro k hk
    rw [contains_put]
    by_cases hkind : m.kind = kind
    · rw [if_pos hkind] at hk
      exact .inl hk.symm
    · rw [if_neg hkind, Option.none_or] at hk
      exact .inr (hb.isSome k hk)

/-! Histories as a whole. -/

theorem tidy_after (className : String) (h : ClassHistory) : (after className h).Tidy := by
  induction h with
  | nil =>
    refine ⟨?_, ?_, ?_⟩
    · intro _ _ he
      cases he
    · intro _ _ he
      cases he
    · intro _ _ _ _ he
      cases he
  | cons op earlier ih => exact ih.apply className op

/-- There is an entry under the key of every method that an operation was about. -/
theorem contains_after (className : String) (h : ClassHistory) (k : Key) :
    (after className h).entries.contains k ↔ some k ∈ h.map ClassOperation.key? := by
  induction h with
  | nil => exact ⟨nofun, nofun⟩
  | cons op earlier ih =>
    rw [List.map_cons, List.mem_cons]
    exact (contains_apply _ className op k).trans (or_congr_right ih)

/-- By induction on the history: `bound` is what is kept for the kind. -/
theorem bound_after {kind : MethodKind} {bound : LinkedMethods → Option StampedMethod}
    (hnone : bound {} = none)
    (hput : ∀ l m, bound (put l m) = relink kind (l.entries.find? m.key) ⟨l.clock, m⟩ (bound l))
    (className : String) (h : ClassHistory) :
    Bound kind (ClassHistory.lastTagged? kind h) (after className h)
      (bound (after className h)) := by
  induction h with
  | nil => exact ⟨hnone, nofun⟩
  | cons op earlier ih =>
    have htidy := tidy_after className earlier
    cases op with
    | field => exact ih
    | declare name k params visibility =>
      have hknown := contains_after className earlier (Key.of name)
      by_cases hc : (after className earlier).entries.contains (Key.of name)
      · have hafter : after className (.declare name k params visibility :: earlier) =
            after className earlier := if_pos hc
        have htagged : ClassOperation.tagged? kind earlier (.declare name k params visibility) =
            none := if_neg fun h => h.2 (hknown.mp hc)
        rw [hafter, ClassHistory.lastTagged?, htagged, Option.none_or]
        exact ih
      · let m : Method := ⟨className, name, k, k = .function, params, none⟩
        have hafter : after className (.declare name k params visibility :: earlier) =
            (after className earlier).put m := if_neg hc
        have hnew : some (Key.of name) ∉ earlier.map ClassOperation.key? :=
          fun h => hc (hknown.mpr h)
        have htagged : ClassOperation.tagged? kind earlier (.declare name k params visibility) =
            if m.kind = kind then some m.key else none := by
          unfold ClassOperation.tagged?
          simp only [hnew, not_false_iff, and_true]
          rfl
        rw [hafter, ClassHistory.lastTagged?, htagged, hput]
        exact ih.put htidy m
    | attach m =>
      change Bound kind _ _ (bound ((after className earlier).put m))
      rw [hput]
      exact ih.put htidy m

/-- What stands under a key is its latest implementation, or else what its first header
announces. -/
theorem find?_after (className : String) (h : ClassHistory) (k : Key) :
    ((after className h).entries.find? k).map StampedMethod.method =
      ClassHistory.entry? className k h := by
  induction h with
  | nil => rfl
  | cons op earlier ih =>
    have hcons : ClassHistory.entry? className k (op :: earlier) =
        (op.implements? k).or
          ((ClassHistory.entry? className k earlier).or (op.announces? className k)) := by
      unfold ClassHistory.entry?
      rw [List.findSome?_cons, List.reverse_cons, List.findSome?_append, List.findSome?_singleton,
        Option.or_assoc]
      cases op.implements? k <;> rfl
    rw [hcons, ← ih]
    cases op with
    | field =>
      change _ = ((_ : Option Method).or none)
      rw [Option.or_none]
      rfl
    | declare name kind params visibility =>
      change (((after className earlier).apply className _).entries.find? k).map _ = Option.or _ _
      generalize after className earlier = l
      unfold apply
      dsimp only [ClassOperation.announces?]
      split
      · next hc =>
        split
        · next hk =>
          -- a header of a known name announces nothing new
          subst hk
          obtain ⟨e, he⟩ := Option.isSome_iff_exists.mp hc
          rw [he]
          rfl
        · rw [Option.or_none]
          rfl
      · next hc =>
        rw [find?_put]
        by_cases hk : k = Key.of name
        · have hfree : l.entries.find? k = none := by
            rw [hk]
            exact Option.not_isSome_iff_eq_none.mp hc
          rw [hfree, if_pos hk.symm]
          exact congrArg _ (if_pos hk)
        · rw [if_neg (Ne.symm hk), Option.or_none]
          exact congrArg _ (if_neg hk)
    | attach m =>
      change (((after className earlier).put m).entries.find? k).map _ =
        (if m.key = k then some m else none).or (Option.or _ none)
      rw [find?_put, Option.or_none]
      by_cases hk : k = m.key
      · rw [if_pos hk, if_pos hk.symm]
        rfl
      · rw [if_neg hk, if_neg (Ne.symm hk)]
        rfl

end LinkedMethods

/-! Keeping the names of the methods. -/

namespace Class

/-- The table of a class has the methods of another, under the same keys. -/
def Lists (c : Class) (l : LinkedMethods) : Prop :=
  ∀ k, (c.methods.find? k).map MethodEntry.method = (l.entries.find? k).map StampedMethod.method

variable {c : Class} {l : LinkedMethods}

theorem Lists.contains (h : c.Lists l) (k : Key) : c.methods.contains k = l.entries.contains k := by
  have hk := congrArg Option.isSome (h k)
  rwa [Option.isSome_map, Option.isSome_map] at hk

theorem Lists.insert (h : c.Lists l) (m : Method) {e : MethodEntry} (he : e.method = m)
    {c' : Class} (hc : c'.methods = c.methods.insert m.key e) : c'.Lists (l.put m) := by
  intro k
  rw [hc, LinkedMethods.find?_put]
  by_cases hk : k = m.key
  · rw [hk, Table.find?_insert_self, if_pos rfl]
    exact congrArg some he
  · rw [Table.find?_insert_of_ne _ _ hk, if_neg hk]
    exact h k

theorem Lists.apply (h : c.Lists l) (op : ClassOperation) :
    (op.apply c).Lists (l.apply c.name op) := by
  cases op with
  | field => exact h
  | declare name kind params visibility =>
    let m : Method := ⟨c.name, name, kind, kind = .function, params, none⟩
    have hadded : ({ c with methods := c.methods.insert m.key ⟨m, some visibility⟩ }.bind m).Lists
        (l.put m) := h.insert m (e := ⟨m, some visibility⟩) rfl (bind_methods _ m)
    unfold ClassOperation.apply LinkedMethods.apply declareMethod
    dsimp only
    rw [← h.contains]
    split
    · exact h
    · exact hadded
  | attach m =>
    let e : MethodEntry := ⟨m, (c.methods.find? m.key).bind MethodEntry.visibility⟩
    have hmethods : (c.attachMethod m).methods = c.methods.insert m.key e :=
      bind_methods { c with methods := c.methods.insert m.key e } m
    exact h.insert m rfl hmethods

theorem name_apply (c : Class) (op : ClassOperation) : (op.apply c).name = c.name := by
  cases op with
  | field => rfl
  | declare name kind params visibility =>
    unfold ClassOperation.apply declareMethod
    dsimp only
    split
    · rfl
    · exact bind_name _ _
  | attach m => exact bind_name _ _

@[simp]
theorem name_after (name : String) (h : ClassHistory) : (after name h).name = name := by
  induction h with
  | nil => rfl
  | cons op earlier ih => exact (name_apply _ op).trans ih

theorem lists_after (name : String) (h : ClassHistory) :
    (after name h).Lists (.after name h) := by
  induction h with
  | nil => exact fun _ => rfl
  | cons op earlier ih =>
    have happly := ih.apply op
    rw [name_after] at happly
    exact happly

/-- By induction on the history: `key` is the name kept for the kind. -/
theorem key_after (kind : MethodKind) {key : Class → Option Key}
    (hnone : ∀ name, key { name } = none)
    (hsame : ∀ (c : Class) fields methods, key { c with fields, methods } = key c)
    (hbind : ∀ (c : Class) m,
      key (c.bind m) = (if m.kind = kind then some m.key else none).or (key c))
    (name : String) (h : ClassHistory) :
    key (after name h) = ClassHistory.lastTagged? kind h := by
  induction h with
  | nil => exact hnone name
  | cons op earlier ih =>
    rw [ClassHistory.lastTagged?, ← ih]
    cases op with
    | field member visibility => exact hsame _ _ _
    | declare member k params visibility =>
      have hcontains := (lists_after name earlier).contains (Key.of member)
      have hknown := LinkedMethods.contains_after name earlier (Key.of member)
      rw [← hcontains] at hknown
      change key ((after name earlier).declareMethod member k params visibility) = _
      generalize after name earlier = c at hknown
      unfold declareMethod ClassOperation.tagged?
      dsimp only
      by_cases hc : c.methods.contains (Key.of member)
      · rw [if_pos hc, if_neg fun h => h.2 (hknown.mp hc)]
        rfl
      · have hnew : some (Key.of member) ∉ earlier.map ClassOperation.key? :=
          fun h => hc (hknown.mpr h)
        rw [if_neg hc, hbind, hsame]
        simp only [hnew, not_false_iff, and_true]
        rfl
    | attach m =>
      refine (hbind _ m).trans ?_
      rw [hsame]
      rfl

end Class

/-! What is bound. -/

/-- What is bound for a kind after a history: nothing if no method was ever made the one for it, and
else the very entry of the method that was made so last. A class that goes by names has the same
method, and takes the same name for its name. -/
structure ClassHistory.Binds (name : String) (h : ClassHistory) (kind : MethodKind)
    (bound : Option StampedMethod) (method? : Option Method) (named : String → Bool) : Prop where
  entry : bound = (lastTagged? kind h).bind (LinkedMethods.after name h).entries.find?
  isSome : bound.isSome = (lastTagged? kind h).isSome
  method : method? = bound.map StampedMethod.method
  named : ∀ member, named member = bound.any fun e => e.method.key = Key.of member

theorem ClassHistory.binds_of_bound {name : String} {h : ClassHistory} {kind : MethodKind}
    {bound : Option StampedMethod} {method? : Option Method} {named : String → Bool}
    (hb : LinkedMethods.Bound kind (lastTagged? kind h) (.after name h) bound)
    (hmethod : method? =
      ((lastTagged? kind h).bind (Class.after name h).methods.find?).map MethodEntry.method)
    (hnamed : ∀ member, named member = decide (lastTagged? kind h = some (Key.of member))) :
    Binds name h kind bound method? named := by
  obtain ⟨hentry, hsome⟩ := hb
  cases hlast : lastTagged? kind h with
  | none =>
    rw [hlast] at hentry hmethod hnamed
    subst hentry
    refine ⟨?_, ?_, hmethod, hnamed⟩
    · rw [hlast]
    · rw [hlast]
      rfl
  | some k =>
    rw [hlast] at hentry hmethod hnamed
    obtain ⟨e, he⟩ := Option.isSome_iff_exists.mp (hsome k hlast)
    have hkey := (LinkedMethods.tidy_after name h).key k e he
    have hbound : bound = some e := hentry.trans he
    refine ⟨?_, ?_, ?_, ?_⟩
    · rw [hlast]
      exact hentry
    · rw [hlast, hbound]
      rfl
    · rw [hmethod, hbound]
      exact (Class.lists_after name h k).trans (congrArg _ he)
    · intro member
      rw [hnamed, hbound]
      subst hkey
      simp

/-- A class that goes by names has the constructor of one that keeps it, and the destructor. -/
theorem Class.binds_after (name : String) (h : ClassHistory) :
    h.Binds name .constructor (LinkedMethods.after name h).constructor
        (Class.after name h).constructor? (Class.after name h).isConstructor ∧
      h.Binds name .destructor (LinkedMethods.after name h).destructor
        (Class.after name h).destructor? (Class.after name h).isDestructor := by
  have hconstructor : (Class.after name h).constructorKey =
      ClassHistory.lastTagged? .constructor h := by
    refine key_after .constructor (fun _ => rfl) (fun _ _ _ => rfl) ?_ name h
    intro c m
    unfold bind
    cases m.kind <;> rfl
  have hdestructor : (Class.after name h).destructorKey =
      ClassHistory.lastTagged? .destructor h := by
    refine key_after .destructor (fun _ => rfl) (fun _ _ _ => rfl) ?_ name h
    intro c m
    unfold bind
    cases m.kind <;> rfl
  refine ⟨?_, ?_⟩
  · refine ClassHistory.binds_of_bound (LinkedMethods.bound_after rfl (fun _ _ => rfl) name h) ?_ ?_
    · unfold constructor?
      rw [hconstructor]
    · intro member
      unfold isConstructor
      rw [hconstructor]
  · refine ClassHistory.binds_of_bound (LinkedMethods.bound_after rfl (fun _ _ => rfl) name h) ?_ ?_
    · unfold destructor?
      rw [hdestructor]
    · intro member
      unfold isDestructor
      rw [hdestructor]

/-- An implementation of another kind takes the place of the constructor that a header announces. -/
example :
    let c := Class.after "Box"
      [.attach ⟨"Box", "CREATE", .procedure, false, ["n"], some []⟩,
        .declare "Create" .constructor [] .publ]
    c.constructor?.map Method.name = some "CREATE" ∧ c.isConstructor "create" = true := by
  decide +kernel

/-! Classes in a run. -/

/-- The class has come about by some history. -/
def Class.Built (c : Class) : Prop :=
  ∃ h, c = Class.after c.name h

namespace Class.Built

theorem apply {c : Class} (hc : c.Built) (op : ClassOperation) : (op.apply c).Built := by
  obtain ⟨h, hh⟩ := hc
  refine ⟨op :: h, ?_⟩
  rw [name_apply]
  exact congrArg op.apply hh

theorem ofDecl {d : ClassDecl} {c : Class} (h : Class.ofDecl d = .ok c) : c.Built := by
  refine ofDecl_keeps (P := Class.Built) ?_ ?_ ⟨[], rfl⟩ h
  · intro c name visibility hc
    exact hc.apply (.field name visibility)
  · intro c name kind params visibility hc
    exact hc.apply (.declare name kind params visibility)

/-- The constructor goes by the name of a method, and is that method. -/
theorem findMethod? {c : Class} (hc : c.Built) {member : String} (h : c.isConstructor member) :
    ∃ m, c.findMethod? member = some m ∧ c.constructor? = some m := by
  obtain ⟨history, hh⟩ := hc
  have hbinds := (binds_after c.name history).1
  rw [← hh] at hbinds
  have hkey : c.constructorKey = some (Key.of member) := of_decide_eq_true h
  have hsame : c.constructor? = c.findMethod? member := by
    unfold constructor? Class.findMethod?
    rw [hkey]
    rfl
  have hnamed := hbinds.named member
  rw [h] at hnamed
  have hmethod := hbinds.method
  cases hb : (LinkedMethods.after c.name history).constructor with
  | none =>
    rw [hb] at hnamed
    cases hnamed
  | some e =>
    rw [hb] at hmethod
    exact ⟨e.method, hsame.symm.trans hmethod, hmethod⟩

end Class.Built

/-- Making an object of a class and running a method on it. -/
def constructWith (body : List Statement → Script Unit) (id : ClassId) (m : Method)
    (args : List Value) (location : Option Location) : Script Value := do
  checkArity m args location
  let object ← perform (.newObject id)
  let _ ← runMethod body .new object m args location
  return .object object

/-- Under the constructor's name, the method of that name is run. -/
theorem run_construct_of_built {host : Host} {n : Machine} {id : ClassId} {member : String}
    (hb : (n.store.classOf id).Built) (h : (n.store.classOf id).isConstructor member)
    (body : List Statement → Script Unit) (args : List Value) (location : Option Location) :
    ∃ m, (n.store.classOf id).findMethod? member = some m ∧
      (construct body id member args location).run host n =
        if m.implemented then (constructWith body id m args location).run host n
        else (.error (.fault location (.notImplemented (n.store.classOf id).name member)), n) := by
  obtain ⟨m, hfound, hbound⟩ := hb.findMethod? h
  refine ⟨m, hfound, ?_⟩
  have hfind : n.store.findConstructor id member =
      if m.implemented then .ok m
      else .error (.notImplemented (n.store.classOf id).name member) := by
    unfold Store.findConstructor
    simp only [h, hbound, if_true]
  have hperform : n.perform host (.findConstructor id member location) =
      (faultAt location (n.store.findConstructor id member), n) := rfl
  unfold construct
  rw [run_bind, run_perform, hperform, hfind]
  by_cases hm : m.implemented
  · rw [if_pos hm, if_pos hm]
    rfl
  · rw [if_neg hm, if_neg hm]
    rfl

/-- In a run, nothing is known but how classes come about. -/
def building : Regime Still where
  values _ _ := True
  classes _ _ := True
  methods _ _ := True
  declared := Class.Built
  impls _ := True
  exhausts := True
  values_int _ _ := trivial
  values_nil _ := trivial
  values_mono _ _ := trivial
  classes_mono _ _ := trivial

/-- Every class has come about by some history. -/
def Store.Built (s : Store) : Prop :=
  ∀ c ∈ s.classes, c.Built

theorem Machine.perform_built {host : Host} {m : Machine} (hm : m.store.Built) {a : Action}
    (ha : building.Allows .still a) : (m.perform host a).2.store.Built := by
  apply perform_classes hm
  · rintro c location rfl
    exact ha
  · rintro impl name c rfl hc
    exact hc.apply (.attach _)

theorem building_kept (host : Host) : building.Kept host fun _ m => m.store.Built where
  perform := by
    intro w m a hm ha
    refine ⟨.still, trivial, Machine.perform_built hm ha, ?_⟩
    intro r _
    cases a with
    | constructedClass => exact fun _ _ => trivial
    | _ => trivial
  leave hm := hm

/-- By the regime, every class in every store that a program passes through has a history. -/
theorem Program.stores_built (host : Host) (p : Program) (depth : Nat) (replies : List Reply) :
    ∀ s ∈ (p.execute depth).stores host { input := { replies } }, s.Built := by
  have hp : building.likeness.Programs p p :=
    Regime.programs (fun _ _ _ hc => .ofDecl hc) fun _ _ => trivial
  have hself := Regime.couples_self hp trivial depth Still.still
  have hfresh : ({ input := { replies } } : Machine).store.Built := nofun
  obtain ⟨hmoments, _, hend⟩ := (building_kept host).moments hself hfresh
  intro s hs
  rcases mem_stores.mp hs with ⟨x, hx, rfl | hpass⟩ | rfl
  · exact (hmoments x hx).choose_spec
  · have hbefore : x.1.store.Built := (hmoments x hx).choose_spec
    unfold Store.Built
    rw [(Machine.passing_extends x.2 s hpass).classes]
    exact hbefore
  · exact hend

/-- Whatever has been done to a class: under each name stands its latest implementation, or else
what its first header announces; and what is bound as constructor or destructor is the very entry
under the name that was made so last. In every store that a program passes through, a constructor
call runs the method that stands under the name it is called by. -/
theorem bindings_follow :
    (∀ (name : String) (h : ClassHistory),
      (∀ k, ((LinkedMethods.after name h).entries.find? k).map StampedMethod.method =
        h.entry? name k) ∧
      (∀ k, ((Class.after name h).methods.find? k).map MethodEntry.method = h.entry? name k) ∧
      h.Binds name .constructor (LinkedMethods.after name h).constructor
        (Class.after name h).constructor? (Class.after name h).isConstructor ∧
      h.Binds name .destructor (LinkedMethods.after name h).destructor
        (Class.after name h).destructor? (Class.after name h).isDestructor) ∧
    ∀ (host : Host) (p : Program) (depth : Nat) (replies : List Reply) (n : Machine),
      n.store ∈ (p.execute depth).stores host { input := { replies } } →
      ∀ id < n.store.classes.size,
        (n.store.classOf id).Built ∧
        ∀ member, (n.store.classOf id).isConstructor member →
          ∀ (d : Nat) (args : List Value) (location : Option Location),
            ∃ m, (n.store.classOf id).findMethod? member = some m ∧
              (construct (runBody d) id member args location).run host n =
                if m.implemented then
                  (constructWith (runBody d) id m args location).run host n
                else
                  (.error (.fault location (.notImplemented (n.store.classOf id).name member)),
                    n) := by
  refine ⟨?_, ?_⟩
  · intro name h
    have hentries := LinkedMethods.find?_after name h
    exact ⟨hentries, fun k => (Class.lists_after name h k).trans (hentries k),
      Class.binds_after name h⟩
  · intro host p depth replies n hn id hid
    have hclass : (n.store.classOf id).Built := by
      have hmem : n.store.classes[id] ∈ n.store.classes := Array.getElem_mem hid
      have hbuilt := p.stores_built host depth replies n.store hn _ hmem
      unfold Store.classOf
      rw [Array.getD_eq_getD_getElem?, Array.getElem?_eq_getElem hid]
      exact hbuilt
    refine ⟨hclass, ?_⟩
    intro member hmember d args location
    exact run_construct_of_built hclass hmember (runBody d) args location

end ObjectPascal
