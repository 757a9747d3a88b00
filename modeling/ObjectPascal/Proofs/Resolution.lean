import Mathlib.Data.List.Find
import ObjectPascal.Proofs.Concealment
import ObjectPascal.Proofs.Extension

/-!
Where a name is found. Reading and assigning go through the same places in the same order, so that
together they are a lens on the one place that holds the name: what is assigned is what is read
next, and nothing else changes.
-/

namespace ObjectPascal

theorem getD_modify {α : Type} (xs : Array α) (i j : Nat) (f : α → α) (d : α) :
    (xs.modify i f).getD j d = if i = j ∧ j < xs.size then f (xs.getD j d) else xs.getD j d := by
  rw [Array.getD_eq_getD_getElem?, Array.getD_eq_getD_getElem?, Array.getElem?_modify]
  by_cases hj : j < xs.size
  · by_cases hi : i = j <;> simp [hi, hj]
  · simp [hj]

theorem modify_modify {α : Type} (xs : Array α) (i : Nat) (f g : α → α) :
    (xs.modify i f).modify i g = xs.modify i (g ∘ f) := by
  apply Array.ext_getElem?
  intro j
  rw [Array.getElem?_modify, Array.getElem?_modify, Array.getElem?_modify]
  split
  · rw [Option.map_map]
  · rfl

/-- Changing an entry into itself. -/
theorem modify_eq_self {α : Type} {xs : Array α} {i : Nat} {f : α → α}
    (h : ∀ a, xs[i]? = some a → f a = a) : xs.modify i f = xs := by
  have hmap := map_modify_of_eq (f := id) h
  rwa [Array.map_id, Array.map_id] at hmap

namespace Table

variable {α : Type}

/-- The entry that is put in last counts. -/
theorem insert_insert (t : Table α) (k : Key) (a b : α) :
    (t.insert k a).insert k b = t.insert k b := by
  obtain ⟨es⟩ := t
  simp only [insert, Table.mk.injEq]
  induction es with
  | nil => simp [insertIn]
  | cons e es ih =>
    obtain ⟨k₁, a₁⟩ := e
    by_cases hk : k₁ = k
    · simp [insertIn, hk]
    · simp [insertIn, hk, ih]

/-- Putting in what is there changes nothing, not even the order. -/
theorem insert_eq_self {t : Table α} {k : Key} {a : α} (h : t.find? k = some a) :
    t.insert k a = t := by
  obtain ⟨es⟩ := t
  simp only [find?, insert, Table.mk.injEq] at h ⊢
  induction es with
  | nil => cases h
  | cons e es ih =>
    obtain ⟨k₁, a₁⟩ := e
    by_cases hk : k₁ = k
    · simp_all [findIn, insertIn]
    · rw [findIn, if_neg hk] at h
      rw [insertIn, if_neg hk, ih h]

end Table

namespace Frame

theorem set_set (f : Frame) (name : String) (v w : Value) :
    (f.set name v).set name w = f.set name w := by
  simp only [set, Table.find?_insert_self, Table.insert_insert, Option.bind_some]

theorem set_eq_self {f : Frame} {name : String} {v : Value} (h : f.get? name = some v) :
    f.set name v = f := by
  obtain ⟨slot, hslot, rfl⟩ := Option.map_eq_some_iff.mp h
  unfold set
  dsimp only
  rw [hslot, Option.bind_some, Table.insert_eq_self hslot]

end Frame

namespace Store

variable {s s' : Store}

/-! The places, and what they hold. -/

/-- The places in which names are looked for: the innermost frame, its receiver, and the frames
further out from inner to outer. -/
def scopes (s : Store) : List Owner :=
  .frame s.innermost.frame ::
    (s.innermost.receiver.toList.map .object ++ s.outerFrames.map .frame)

/-- What a place holds under a key. -/
def held? (s : Store) : Owner → Key → Option Value
  | .frame id, k => ((s.frame id).slots.find? k).map Slot.value
  | .object id, k => (s.object id).fields.find? k

/-- Puts a value under a name where a place holds it. -/
def put (s : Store) : Owner → String → Value → Store
  | .frame id, name, v => s.updateFrame id (·.set name v)
  | .object id, name, v =>
    let update (o : Object) : Object := { o with fields := o.fields.insert (Key.of name) v }
    { s with objects := s.objects.modify id update }

theorem has_eq (s : Store) (id : FrameId) (name : String) :
    (s.frame id).has name = (s.held? (.frame id) (Key.of name)).isSome := by
  rw [held?, Option.isSome_map]
  rfl

theorem frameWith?_eq (s : Store) (name : String) (ids : List FrameId) :
    (s.frameWith? name ids).map .frame =
      (ids.map .frame).find? fun o => (s.held? o (Key.of name)).isSome := by
  induction ids with
  | nil => rfl
  | cons id ids ih =>
    rw [frameWith?, has_eq, List.map_cons, List.find?_cons]
    cases (s.held? (.frame id) (Key.of name)).isSome with
    | true => rfl
    | false => exact ih

/-- A name is found in the first of the places that holds it. -/
theorem owner?_eq (s : Store) (name : String) :
    s.owner? name = s.scopes.find? fun o => (s.held? o (Key.of name)).isSome := by
  unfold owner? scopes
  dsimp only
  rw [has_eq, List.find?_cons, frameWith?_eq]
  cases (s.held? (.frame s.innermost.frame) (Key.of name)).isSome with
  | true => rfl
  | false =>
    cases s.innermost.receiver with
    | none => rfl
    | some id =>
      change _ = (Owner.object id :: s.outerFrames.map .frame).find? _
      have hfield : s.hasField id name = (s.held? (.object id) (Key.of name)).isSome := rfl
      rw [List.find?_cons, Option.filter_some, hfield]
      cases (s.held? (.object id) (Key.of name)).isSome <;> rfl

theorem lookup?_eq (s : Store) (name : String) :
    s.lookup? name = (s.owner? name).bind fun o => s.held? o (Key.of name) := by
  unfold lookup?
  rcases s.owner? name with _ | _ | _ <;> rfl

/-- The place in which a name is found holds it. -/
theorem held_of_owner? {name : String} {o : Owner} (h : s.owner? name = some o) :
    ∃ v, s.held? o (Key.of name) = some v := by
  rw [owner?_eq] at h
  have hsome := List.find?_some h
  exact Option.isSome_iff_exists.mp hsome

theorem owner?_eq_none_iff {name : String} :
    s.owner? name = none ↔ ∀ o ∈ s.scopes, s.held? o (Key.of name) = none := by
  rw [owner?_eq, List.find?_eq_none]
  simp

theorem lookup_of_owner? {name : String} {o : Owner} {v : Value} (h : s.owner? name = some o)
    (hv : s.held? o (Key.of name) = some v) : s.lookup name = .ok v := by
  unfold lookup
  rw [lookup?_eq, h, Option.bind_some, hv]

theorem lookup_error_iff {name : String} :
    s.lookup name = .error (.undefinedVariable name) ↔ s.owner? name = none := by
  cases h : s.owner? name with
  | none =>
    unfold lookup
    rw [lookup?_eq, h]
    exact ⟨fun _ => rfl, fun _ => rfl⟩
  | some o =>
    obtain ⟨v, hv⟩ := held_of_owner? h
    rw [lookup_of_owner? h hv]
    exact ⟨nofun, nofun⟩

/-- Assigning puts the value where the name is found. -/
theorem assign_of_owner? {name : String} {o : Owner} (h : s.owner? name = some o) (v : Value) :
    s.assign name v = .ok (s.put o name v) := by
  unfold assign
  rw [h]
  cases o with
  | frame id => rfl
  | object id =>
    obtain ⟨u, hu⟩ := held_of_owner? h
    have hhas : s.hasField id name := Option.isSome_iff_exists.mpr ⟨u, hu⟩
    exact if_pos hhas

theorem assign_of_owner?_none {name : String} (h : s.owner? name = none) (v : Value) :
    s.assign name v = .error (.undeclaredTarget name) := by
  unfold assign
  rw [h]

theorem assign_error_iff {name : String} {v : Value} :
    s.assign name v = .error (.undeclaredTarget name) ↔ s.owner? name = none := by
  cases h : s.owner? name with
  | none => exact ⟨fun _ => rfl, fun _ => assign_of_owner?_none h v⟩
  | some o =>
    rw [assign_of_owner? h]
    exact ⟨nofun, nofun⟩

/-! What putting a value does. -/

theorem frame_updateFrame (s : Store) (id i : FrameId) (f : Frame → Frame) :
    (s.updateFrame id f).frame i =
      if id = i ∧ i < s.frames.size then f (s.frame i) else s.frame i :=
  getD_modify _ _ _ _ _

theorem held?_put_of_ne {o o' : Owner} {k : Key} {name : String} (v : Value)
    (h : (o', k) ≠ (o, Key.of name)) : (s.put o name v).held? o' k = s.held? o' k := by
  rcases o with id | id <;> rcases o' with i | i
  · unfold held? put
    dsimp only
    rw [frame_updateFrame]
    split
    · next hi =>
      obtain ⟨rfl, -⟩ := hi
      have hk : k ≠ Key.of name := fun hk => h (by rw [hk])
      exact congrArg (Option.map Slot.value) (Table.find?_insert_of_ne _ _ hk)
    · rfl
  · rfl
  · rfl
  · unfold held? put
    dsimp only
    rw [object_modify]
    split
    · next hi =>
      obtain ⟨rfl, -⟩ := hi
      have hk : k ≠ Key.of name := fun hk => h (by rw [hk])
      exact Table.find?_insert_of_ne _ _ hk
    · rfl

/-- Only what is there holds anything. -/
theorem lt_of_held?_frame {id : FrameId} {k : Key} {v : Value}
    (h : s.held? (.frame id) k = some v) : id < s.frames.size := by
  rcases Nat.lt_or_ge id s.frames.size with hlt | hge
  · exact hlt
  · unfold held? frame at h
    dsimp only at h
    rw [Array.getD_eq_getD_getElem?, Array.getElem?_eq_none hge] at h
    cases h

theorem lt_of_held?_object {id : ObjectId} {k : Key} {v : Value}
    (h : s.held? (.object id) k = some v) : id < s.objects.size := by
  rcases Nat.lt_or_ge id s.objects.size with hlt | hge
  · exact hlt
  · unfold held? object at h
    dsimp only at h
    rw [Array.getD_eq_getD_getElem?, Array.getElem?_eq_none hge] at h
    cases h

theorem held?_put_self {o : Owner} {name : String} {u : Value}
    (h : s.held? o (Key.of name) = some u) (v : Value) :
    (s.put o name v).held? o (Key.of name) = some v := by
  rcases o with id | id
  · unfold held? put
    dsimp only
    rw [frame_updateFrame, if_pos ⟨rfl, lt_of_held?_frame h⟩]
    unfold Frame.set
    rw [Table.find?_insert_self]
    rfl
  · unfold held? put
    dsimp only
    rw [object_modify, if_pos ⟨rfl, lt_of_held?_object h⟩]
    exact Table.find?_insert_self _ _ _

/-- The later value counts. -/
theorem put_put (s : Store) (o : Owner) (name : String) (v w : Value) :
    (s.put o name v).put o name w = s.put o name w := by
  rcases o with id | id
  · unfold put updateFrame
    dsimp only
    rw [modify_modify]
    have hset : (fun f : Frame => f.set name w) ∘ (fun f : Frame => f.set name v) =
        fun f => f.set name w := funext fun f => f.set_set name v w
    rw [hset]
  · unfold put
    dsimp only
    rw [modify_modify]
    congr 2
    funext o
    simp only [Function.comp_apply, Table.insert_insert]

/-- Putting in the value that is there changes nothing. -/
theorem put_eq_self {o : Owner} {name : String} {v : Value}
    (h : s.held? o (Key.of name) = some v) : s.put o name v = s := by
  rcases o with id | id
  · have hframes : s.frames.modify id (·.set name v) = s.frames := by
      apply modify_eq_self
      intro f hf
      apply Frame.set_eq_self
      rwa [← frame_eq hf]
    unfold put updateFrame
    dsimp only
    rw [hframes]
  · have hobjects : s.objects.modify id
        (fun o => { o with fields := o.fields.insert (Key.of name) v }) = s.objects := by
      apply modify_eq_self
      intro o ho
      unfold held? at h
      dsimp only at h
      rw [object_eq ho] at h
      rw [Table.insert_eq_self h]
    unfold put
    dsimp only
    rw [hobjects]

/-- Names are looked for in the same places as before. -/
theorem scopes_put (s : Store) (o : Owner) (name : String) (v : Value) :
    (s.put o name v).scopes = s.scopes := by
  cases o <;> rfl

/-- Every name is found where it was found before. -/
theorem owner?_put {o : Owner} {name : String} {u : Value}
    (h : s.held? o (Key.of name) = some u) (v : Value) (b : String) :
    (s.put o name v).owner? b = s.owner? b := by
  have hheld : ∀ o', ((s.put o name v).held? o' (Key.of b)).isSome =
      (s.held? o' (Key.of b)).isSome := by
    intro o'
    by_cases heq : (o', Key.of b) = (o, Key.of name)
    · obtain ⟨rfl, hk⟩ := Prod.mk.inj heq
      rw [hk, held?_put_self h, h]
      rfl
    · rw [held?_put_of_ne v heq]
  rw [owner?_eq, owner?_eq, scopes_put]
  simp only [hheld]

/-- `s'` is `s` but for the value that a place holds under a key. -/
structure DiffersAt (o : Owner) (k : Key) (s s' : Store) : Prop where
  rewrites : s.Rewrites s'
  held : ∀ o' k', (o', k') ≠ (o, k) → s'.held? o' k' = s.held? o' k'
  result : ∀ id, (s'.frame id).result = (s.frame id).result
  returned : ∀ id, (s'.frame id).returned = (s.frame id).returned

theorem differsAt_put {o : Owner} {name : String} {u : Value}
    (h : s.held? o (Key.of name) = some u) (v : Value) :
    DiffersAt o (Key.of name) s (s.put o name v) := by
  have hframe : ∀ id, ((s.put o name v).frame id).result = (s.frame id).result ∧
      ((s.put o name v).frame id).returned = (s.frame id).returned := by
    intro id
    rcases o with i | i
    · unfold put
      dsimp only
      rw [frame_updateFrame]
      split <;> exact ⟨rfl, rfl⟩
    · exact ⟨rfl, rfl⟩
  refine ⟨?_, fun o' k' hne => held?_put_of_ne v hne, fun id => (hframe id).1,
    fun id => (hframe id).2⟩
  rcases o with id | id
  · apply Rewrites.updateFrame
    apply Frame.outline_set
    rw [has_eq, h]
    rfl
  · have hfield : s.setField id name v = .ok (s.put (.object id) name v) :=
      if_pos (Option.isSome_iff_exists.mpr ⟨u, h⟩)
    exact Rewrites.setField hfield

/-- What is read after an assignment. -/
theorem lookup_put {o : Owner} {name : String} (h : s.owner? name = some o) (v : Value)
    (b : String) :
    (s.put o name v).lookup b = if Key.of b = Key.of name then .ok v else s.lookup b := by
  obtain ⟨u, hu⟩ := held_of_owner? h
  have howner := owner?_put hu v b
  split
  · next hk =>
    have hb : s.owner? b = some o := by rw [owner?_eq, hk, ← owner?_eq, h]
    rw [hb] at howner
    apply lookup_of_owner? howner
    rw [hk]
    exact held?_put_self hu v
  · next hk =>
    have hheld : ∀ o', (s.put o name v).held? o' (Key.of b) = s.held? o' (Key.of b) :=
      fun o' => held?_put_of_ne v fun heq => hk (Prod.mk.inj heq).2
    unfold lookup
    rw [lookup?_eq, lookup?_eq, howner]
    simp only [hheld]

/-- `s'` has the frames of `s` and the same calls, but for the receivers of outer ones; and it has
other objects, but for the fields of the innermost receiver. -/
structure SameView (s s' : Store) : Prop where
  frames : s'.frames = s.frames
  calls : s'.calls.map Activation.frame = s.calls.map Activation.frame
  receiver : s'.innermost.receiver = s.innermost.receiver
  fields : ∀ id, s.innermost.receiver = some id → (s'.object id).fields = (s.object id).fields

namespace SameView

theorem scopes (h : s.SameView s') : s'.scopes = s.scopes := by
  have hcalls := h.calls
  have hframe : s'.innermost.frame = s.innermost.frame := by
    unfold innermost
    cases hs : s.calls <;> cases hs' : s'.calls <;> simp_all
  have houter : s'.outerFrames = s.outerFrames := by
    unfold outerFrames
    cases hs : s.calls <;> cases hs' : s'.calls <;> simp_all
  unfold Store.scopes
  rw [hframe, h.receiver, houter]

theorem held? (h : s.SameView s') {o : Owner} (ho : o ∈ s.scopes) (k : Key) :
    s'.held? o k = s.held? o k := by
  cases o with
  | frame id =>
    unfold Store.held? frame
    rw [h.frames]
  | object id =>
    have hreceiver : s.innermost.receiver = some id := by
      simpa [Store.scopes] using ho
    exact congrArg (Table.find? · k) (h.fields id hreceiver)

theorem lookup (h : s.SameView s') (name : String) : s'.lookup name = s.lookup name := by
  have howner : s'.owner? name = s.owner? name := by
    rw [owner?_eq, owner?_eq, h.scopes]
    apply List.find?_congr
    intro o ho
    rw [h.held? ho]
  unfold Store.lookup
  rw [lookup?_eq, lookup?_eq, howner]
  cases ho : s.owner? name with
  | none => rfl
  | some o =>
    have hmem : o ∈ s.scopes := by
      rw [owner?_eq] at ho
      exact List.mem_of_find?_eq_some ho
    rw [Option.bind_some, Option.bind_some, h.held? hmem]

end SameView

/-- Reading and assigning a name. If none of the places in which it is looked for holds it, both
fail, and only then, and nothing changes. Otherwise both are about the first place that does: an
assignment changes what that place holds under the name and nothing else, so that the name, however
its letters are written, now reads as the new value and every other name as before; a second
assignment makes the first one forgotten, and assigning what is read changes nothing at all. The
receivers of outer calls do not matter for reading. -/
theorem assign_lookup_lens (s : Store) (a : String) :
    (∀ v, s.assign a v = .error (.undeclaredTarget a) ↔
      s.lookup a = .error (.undefinedVariable a)) ∧
    (s.lookup a = .error (.undefinedVariable a) ↔
      ∀ o ∈ s.scopes, s.held? o (Key.of a) = none) ∧
    (∀ v c s', Machine.assignAll [(a, v)] s = (.error c, s') →
      c = .undeclaredTarget a ∧ s' = s) ∧
    (∀ o, s.scopes.find? (fun o => (s.held? o (Key.of a)).isSome) = some o →
      ∃ u, s.held? o (Key.of a) = some u ∧ s.lookup a = .ok u ∧ s.assign a u = .ok s ∧
        ∀ v, ∃ s', s.assign a v = .ok s' ∧ DiffersAt o (Key.of a) s s' ∧
          s'.held? o (Key.of a) = some v ∧
          (∀ b, s'.lookup b = if Key.of b = Key.of a then .ok v else s.lookup b) ∧
          ∀ w, s'.assign a w = s.assign a w) ∧
    (∀ s', s.SameView s' → s'.lookup a = s.lookup a) := by
  refine ⟨fun v => assign_error_iff.trans lookup_error_iff.symm,
    lookup_error_iff.trans owner?_eq_none_iff, ?_, ?_, fun s' h => h.lookup a⟩
  · intro v c s' h
    unfold Machine.assignAll at h
    cases ho : s.owner? a with
    | none =>
      rw [assign_of_owner?_none ho] at h
      cases h
      exact ⟨rfl, rfl⟩
    | some o =>
      rw [assign_of_owner? ho] at h
      cases h
  · intro o ho
    rw [← owner?_eq] at ho
    obtain ⟨u, hu⟩ := held_of_owner? ho
    have hsame := assign_of_owner? ho u
    rw [put_eq_self hu] at hsame
    refine ⟨u, hu, lookup_of_owner? ho hu, hsame, ?_⟩
    intro v
    refine ⟨s.put o a v, assign_of_owner? ho v, differsAt_put hu v, held?_put_self hu v,
      lookup_put ho v, ?_⟩
    intro w
    have howner : (s.put o a v).owner? a = some o := (owner?_put hu v a).trans ho
    rw [assign_of_owner? howner, assign_of_owner? ho, put_put]

end Store

end ObjectPascal
