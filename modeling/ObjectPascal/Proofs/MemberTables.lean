import Mathlib.Data.List.Induction
import Mathlib.Data.List.Nodup
import ObjectPascal.Proofs.Admission
import ObjectPascal.Proofs.Completeness
import ObjectPascal.Proofs.Plain

/-!
From the text of a class body to the tables of the class. A marker says who may use the members that
follow it. Of several declarations of a field the last one says it, and of several headers of a
method the first one does, and says all else of the method.
-/

namespace ObjectPascal

open ObjectPascal.Parser ObjectPascal.Grammar

/-! Class bodies. -/

/-- What stands in the body of a class. -/
inductive BodyItem where
  | marker (visibility : Visibility)
  | member (member : Member)

namespace BodyItem

def marker? : BodyItem → Option Visibility
  | marker visibility => some visibility
  | member _ => none

/-- The visibility that is in force behind some items: that of the last marker. -/
def inForce (before : List BodyItem) : Visibility :=
  (before.filterMap marker?).getLast?.getD .publ

/-- The members, each with the visibility that is in force where it stands. -/
def taggedFrom (before : List BodyItem) : List BodyItem → List (Visibility × Member)
  | [] => []
  | marker visibility :: items => taggedFrom (before ++ [marker visibility]) items
  | member m :: items => (inForce before, m) :: taggedFrom (before ++ [member m]) items

def tagged (items : List BodyItem) : List (Visibility × Member) :=
  taggedFrom [] items

theorem inForce_marker (before : List BodyItem) (visibility : Visibility) :
    inForce (before ++ [marker visibility]) = visibility := by
  unfold inForce
  rw [List.filterMap_append]
  exact congrArg (Option.getD · Visibility.publ) List.getLast?_concat

theorem inForce_members (before : List BodyItem) (ms : List Member) :
    inForce (before ++ ms.map member) = inForce before := by
  have hnone : (ms.map member).filterMap marker? = [] := by
    rw [List.filterMap_map, List.filterMap_eq_nil_iff]
    exact fun _ _ => rfl
  unfold inForce
  rw [List.filterMap_append, hnone, List.append_nil]

theorem taggedFrom_members (before : List BodyItem) (ms : List Member) (items : List BodyItem) :
    taggedFrom before (ms.map member ++ items) =
      ms.map (inForce before, ·) ++ taggedFrom (before ++ ms.map member) items := by
  induction ms generalizing before with
  | nil =>
    rw [List.map_nil, List.append_nil]
    rfl
  | cons m ms ih =>
    have hforce : inForce (before ++ [member m]) = inForce before := inForce_members before [m]
    rw [List.map_cons, List.cons_append, taggedFrom, ih, hforce, List.map_cons, List.append_assoc]
    rfl

end BodyItem

/-- Items of a class body one after another. -/
def ClassItem.flat : ClassItem → List BodyItem
  | .member m => [.member m]
  | .marked _ visibility ms => .marker visibility :: ms.map .member

theorem ClassItem.flatMap_flat (ms : List Member) (items : List ClassItem) :
    (ms.map member ++ items).flatMap flat = ms.map BodyItem.member ++ items.flatMap flat := by
  rw [List.flatMap_append, List.flatMap_map, List.map_eq_flatMap]
  rfl

/-- The visibility that a class body is read with is the one in force. -/
theorem ClassItem.taggedFrom_flat (before : List BodyItem) (items : List ClassItem) :
    BodyItem.taggedFrom before (items.flatMap flat) =
      listed (BodyItem.inForce before) items := by
  induction items generalizing before with
  | nil => rfl
  | cons item items ih =>
    rw [List.flatMap_cons]
    cases item with
    | member m =>
      have hforce := BodyItem.inForce_members before [m]
      rw [listed, ← hforce, ← ih, hforce]
      rfl
    | marked location visibility ms =>
      let opened := before ++ [BodyItem.marker visibility]
      have hopened : BodyItem.inForce opened = visibility :=
        BodyItem.inForce_marker before visibility
      change BodyItem.taggedFrom opened (ms.map .member ++ items.flatMap flat) = _
      rw [BodyItem.taggedFrom_members, ih, BodyItem.inForce_members, hopened]
      rfl

namespace Grammar

variable {src : Source} {ts ts' : List Token}

/-- The tokens of a class body, as markers and members one after another. -/
inductive Body (src : Source) : List Token → List BodyItem → Prop
  | nil : Body src [] []
  | marker {t : Token} {visibility : Visibility} {ts : List Token} {items : List BodyItem}
      (ht : (t.kind, visibility) ∈ markers) (h : Body src ts items) :
      Body src (t :: ts) (.marker visibility :: items)
  | member {ts ts' : List Token} {m : Member} {items : List BodyItem}
      (hm : Derives src .member ts m) (h : Body src ts' items) :
      Body src (ts ++ ts') (.member m :: items)

theorem Body.append {items items' : List BodyItem} (h : Body src ts items)
    (h' : Body src ts' items') : Body src (ts ++ ts') (items ++ items') := by
  induction h with
  | nil => exact h'
  | marker ht _ ih => exact .marker ht ih
  | member hm _ ih =>
    rw [List.append_assoc]
    exact .member hm ih

theorem Body.members {ms : List Member} (h : Derives src .members ts ms) :
    Body src ts (ms.map .member) := by
  induction ms generalizing ts with
  | nil =>
    cases h
    exact .nil
  | cons m ms ih =>
    cases h with
    | moreMembers hm hs => exact .member hm (ih hs)

theorem Body.marked {items : List ClassItem} (h : Derives src .marked ts items) :
    Body src ts (items.flatMap ClassItem.flat) := by
  induction items generalizing ts with
  | nil =>
    cases h
    exact .nil
  | cons item items ih =>
    cases h with
    | moreMarked hv hm hi =>
      rw [List.flatMap_cons]
      exact (Body.marker hv (.members hm)).append (ih hi)

/-- Whatever stands in a class body can be grouped by markers. -/
theorem Body.grouped {items : List BodyItem} (h : Body src ts items) :
    ∃ (us us' : List Token) (ms : List Member) (marked : List ClassItem), ts = us ++ us' ∧
      Derives src .members us ms ∧ Derives src .marked us' marked ∧
      (ms.map ClassItem.member ++ marked).flatMap ClassItem.flat = items := by
  induction h with
  | nil => exact ⟨[], [], [], [], rfl, .noMembers, .noMarked, rfl⟩
  | marker ht _ ih =>
    obtain ⟨us, us', ms, marked, rfl, hms, hmarked, rfl⟩ := ih
    refine ⟨[], _, [], _, rfl, .noMembers, .moreMarked ht hms hmarked, ?_⟩
    rw [ClassItem.flatMap_flat ms marked]
    rfl
  | member hm _ ih =>
    obtain ⟨us, us', ms, marked, rfl, hms, hmarked, rfl⟩ := ih
    refine ⟨_, us', _, marked, ?_, .moreMembers hm hms, hmarked, ?_⟩
    · rw [List.append_assoc]
    · rfl

/-- The tokens of a class declaration, with the name of the class and what stands in its body. -/
inductive ClassText (src : Source) : List Token → String → List BodyItem → Prop
  | intro {name equals word last semi : Token} {body : List Token} {items : List BodyItem}
      (hn : name.kind = .ident) (he : equals.kind = .equals) (hc : word.kind = .classKw)
      (hb : Body src body items) (hl : last.kind = .endKw) (hs : semi.kind = .semi) :
      ClassText src (name :: equals :: word :: body ++ [last, semi]) name.text items

theorem ClassText.of_derives {d : ClassDecl} (h : Derives src .classDecl ts d) :
    ClassText src ts d.name (d.items.flatMap ClassItem.flat) := by
  cases h with
  | @classDecl name equals word last semi us us' ms items hn he hc hm hi hl hs =>
    have hbody := (Body.members hm).append (Body.marked hi)
    rw [← ClassItem.flatMap_flat] at hbody
    have htext := ClassText.intro hn he hc hbody hl hs
    simpa only [List.cons_append, List.append_assoc] using htext

theorem ClassText.derives {name : String} {items : List BodyItem}
    (h : ClassText src ts name items) :
    ∃ d : ClassDecl, Derives src .classDecl ts d ∧ d.name = name ∧
      d.items.flatMap ClassItem.flat = items := by
  cases h with
  | @intro name equals word last semi _ _ hn he hc hb hl hs =>
    obtain ⟨us, us', ms, marked, rfl, hms, hmarked, rfl⟩ := hb.grouped
    have htext : name :: equals :: word :: (us ++ us') ++ [last, semi] =
        name :: equals :: word :: us ++ us' ++ [last, semi] := rfl
    rw [htext]
    exact ⟨_, .classDecl hn he hc hms hmarked hl hs, rfl, rfl⟩

/-- Tokens declare one class at most. -/
theorem classDecl_unique {d d' : ClassDecl} (h : Derives src .classDecl ts d)
    (h' : Derives src .classDecl ts d') : d = d' := by
  obtain ⟨_, hr⟩ := classDecl_complete h []
  obtain ⟨_, hr'⟩ := classDecl_complete h' []
  rw [hr] at hr'
  cases hr'
  rfl

/-- There is one way to read the body of a class as markers and members. -/
theorem ClassText.unique {d : ClassDecl} (h : Derives src .classDecl ts d) {name : String}
    {items : List BodyItem} (ht : ClassText src ts name items) :
    name = d.name ∧ items = d.items.flatMap ClassItem.flat := by
  obtain ⟨d', hd', rfl, rfl⟩ := ht.derives
  cases classDecl_unique h hd'
  exact ⟨rfl, rfl⟩

end Grammar

/-! Several of one key. -/

section Keyed

variable {α β : Type} {key : α → Key}

/-- What has nothing of the same key before it. -/
def firstsFrom (key : α → Key) (before : List α) : List α → List α
  | [] => []
  | a :: as =>
    if key a ∈ before.map key then firstsFrom key (before ++ [a]) as
    else a :: firstsFrom key (before ++ [a]) as

def firsts (key : α → Key) (as : List α) : List α :=
  firstsFrom key [] as

/-- The last one of the key that `a` has. -/
def latest (key : α → Key) (as : List α) (a : α) : α :=
  (as.filter fun b => key b = key a).getLast?.getD a

theorem firstsFrom_concat (before as : List α) (a : α) :
    firstsFrom key before (as ++ [a]) = firstsFrom key before as ++
      if key a ∈ (before ++ as).map key then [] else [a] := by
  induction as generalizing before with
  | nil =>
    rw [List.append_nil]
    rfl
  | cons b as ih =>
    rw [List.cons_append, firstsFrom, firstsFrom, ih, List.append_assoc, List.singleton_append]
    split
    · rfl
    · rfl

theorem firsts_concat (as : List α) (a : α) :
    firsts key (as ++ [a]) =
      firsts key as ++ if key a ∈ as.map key then [] else [a] :=
  firstsFrom_concat [] as a

theorem firsts_concat_of_mem {as : List α} {a : α} (h : key a ∈ as.map key) :
    firsts key (as ++ [a]) = firsts key as := by
  rw [firsts_concat, if_pos h, List.append_nil]

theorem firsts_concat_of_not_mem {as : List α} {a : α} (h : key a ∉ as.map key) :
    firsts key (as ++ [a]) = firsts key as ++ [a] := by
  rw [firsts_concat, if_neg h]

theorem mem_map_firsts (as : List α) (k : Key) :
    k ∈ (firsts key as).map key ↔ k ∈ as.map key := by
  induction as using List.reverseRecOn with
  | nil => exact Iff.rfl
  | append_singleton as a ih =>
    rw [List.map_append, List.mem_append]
    by_cases hold : key a ∈ as.map key
    · rw [firsts_concat_of_mem hold, ih, List.map_singleton, List.mem_singleton]
      exact ⟨.inl, fun h => h.elim id fun hk => hk ▸ hold⟩
    · rw [firsts_concat_of_not_mem hold, List.map_append, List.mem_append, ih]

theorem nodup_firsts (as : List α) : ((firsts key as).map key).Nodup := by
  induction as using List.reverseRecOn with
  | nil => exact List.nodup_nil
  | append_singleton as a ih =>
    by_cases hold : key a ∈ as.map key
    · rwa [firsts_concat_of_mem hold]
    · rw [firsts_concat_of_not_mem hold, List.map_append, List.map_singleton,
        ← List.concat_eq_append]
      exact ih.concat fun hmem => hold ((mem_map_firsts as _).mp hmem)

theorem latest_concat (as : List α) (b a : α) :
    latest key (as ++ [b]) a = if key b = key a then b else latest key as a := by
  unfold latest
  rw [List.filter_append, List.filter_singleton]
  by_cases hk : key b = key a
  · rw [if_pos hk, decide_eq_true hk, cond_true, List.getLast?_concat]
    rfl
  · rw [if_neg hk, decide_eq_false hk, cond_false, List.append_nil]

namespace Table

theorem findIn_map_of_not_mem (f : α → β) {as : List α} {k : Key} (hk : k ∉ as.map key) :
    findIn k (as.map fun a => (key a, f a)) = none := by
  induction as with
  | nil => rfl
  | cons a as ih =>
    rw [List.map_cons, List.mem_cons, not_or] at hk
    rw [List.map_cons, findIn, if_neg (Ne.symm hk.1), ih hk.2]

theorem findIn_map_of_mem (f : α → β) {as : List α} {a : α} (hnodup : (as.map key).Nodup)
    (ha : a ∈ as) : findIn (key a) (as.map fun a => (key a, f a)) = some (f a) := by
  induction as with
  | nil => cases ha
  | cons b as ih =>
    rw [List.map_cons, List.nodup_cons] at hnodup
    rw [List.map_cons, findIn]
    rcases List.mem_cons.mp ha with rfl | hmem
    · rw [if_pos rfl]
    · have hne : key b ≠ key a := fun he => hnodup.1 (he ▸ List.mem_map_of_mem hmem)
      rw [if_neg hne, ih hnodup.2 hmem]

theorem insertIn_map_of_not_mem (f : α → β) {as : List α} {k : Key} (hk : k ∉ as.map key)
    (b : β) :
    insertIn k b (as.map fun a => (key a, f a)) = (as.map fun a => (key a, f a)) ++ [(k, b)] := by
  induction as with
  | nil => rfl
  | cons a as ih =>
    rw [List.map_cons, List.mem_cons, not_or] at hk
    rw [List.map_cons, insertIn, if_neg (Ne.symm hk.1), ih hk.2]
    rfl

/-- What is put in takes the place of the one entry of its key. -/
theorem insertIn_map_of_mem (f : α → β) {as : List α} {k : Key} (hnodup : (as.map key).Nodup)
    (hk : k ∈ as.map key) (b : β) :
    insertIn k b (as.map fun a => (key a, f a)) =
      as.map fun a => (key a, if key a = k then b else f a) := by
  induction as with
  | nil => cases hk
  | cons a as ih =>
    rw [List.map_cons, List.nodup_cons] at hnodup
    rw [List.map_cons, List.map_cons, insertIn]
    by_cases ha : key a = k
    · have hothers : ∀ a' ∈ as, (key a', if key a' = k then b else f a') = (key a', f a') := by
        intro a' ha'
        have hne : key a' ≠ k := fun he => hnodup.1 (ha.trans he.symm ▸ List.mem_map_of_mem ha')
        rw [if_neg hne]
      rw [if_pos ha, if_pos ha, List.map_congr_left hothers]
    · have hmem : k ∈ as.map key := (List.mem_cons.mp hk).resolve_left (Ne.symm ha)
      rw [if_neg ha, if_neg ha, ih hnodup.2 hmem]

end Table

end Keyed

/-! What members declare. -/

/-- The field names that members declare, each with the visibility it is declared with. -/
def declaredFields (members : List (Visibility × Member)) : List (Visibility × String) :=
  members.flatMap fun
    | (visibility, .field group) => group.names.map (visibility, ·)
    | _ => []

/-- The headers among members, each with the visibility it stands under. -/
def declaredHeaders (members : List (Visibility × Member)) : List (Visibility × MethodHeader) :=
  members.filterMap fun
    | (visibility, .method header) => some (visibility, header)
    | _ => none

def fieldKey (x : Visibility × String) : Key :=
  Key.of x.2

def headerKey (x : Visibility × MethodHeader) : Key :=
  Key.of x.2.name

/-- The entries of a field table: a name as first declared, with the visibility it is last declared
with. -/
def fieldEntries (fields : List (Visibility × String)) : List (Key × FieldEntry) :=
  (firsts fieldKey fields).map fun x => (fieldKey x, ⟨(latest fieldKey fields x).1, x.2⟩)

/-- The entry that a header makes in the table of a class. -/
def headerEntry (className : String) (x : Visibility × MethodHeader) : MethodEntry where
  method :=
    { className
      name := x.2.name
      kind := x.2.kind
      isFunction := x.2.kind = .function
      params := paramNames x.2.params
      body := none }
  visibility := some x.1

/-- The entries of a method table: what the first header of each name says. -/
def methodEntries (className : String) (headers : List (Visibility × MethodHeader)) :
    List (Key × MethodEntry) :=
  (firsts headerKey headers).map fun x => (headerKey x, headerEntry className x)

/-- The last header of a kind among those that are the first of their name. -/
def lastOfKind? (kind : MethodKind) (headers : List (Visibility × MethodHeader)) :
    Option (Visibility × MethodHeader) :=
  ((firsts headerKey headers).filter fun x => x.2.kind = kind).getLast?

theorem declaredFields_append (members members' : List (Visibility × Member)) :
    declaredFields (members ++ members') = declaredFields members ++ declaredFields members' :=
  List.flatMap_append

theorem declaredHeaders_append (members members' : List (Visibility × Member)) :
    declaredHeaders (members ++ members') = declaredHeaders members ++ declaredHeaders members' :=
  List.filterMap_append

section Headers

variable {headers : List (Visibility × MethodHeader)} {x : Visibility × MethodHeader}

theorem lastOfKind?_concat_of_mem (h : headerKey x ∈ headers.map headerKey) (kind : MethodKind) :
    lastOfKind? kind (headers ++ [x]) = lastOfKind? kind headers := by
  unfold lastOfKind?
  rw [firsts_concat_of_mem h]

theorem lastOfKind?_concat_of_not_mem (h : headerKey x ∉ headers.map headerKey)
    (kind : MethodKind) :
    lastOfKind? kind (headers ++ [x]) =
      if x.2.kind = kind then some x else lastOfKind? kind headers := by
  unfold lastOfKind?
  rw [firsts_concat_of_not_mem h, List.filter_append, List.filter_singleton]
  by_cases hk : x.2.kind = kind
  · rw [if_pos hk, decide_eq_true hk, cond_true, List.getLast?_concat]
  · rw [if_neg hk, decide_eq_false hk, cond_false, List.append_nil]

end Headers

namespace Class

/-- The tables of a class are those that its members declare. -/
structure Tabulates (c : Class) (members : List (Visibility × Member)) : Prop where
  fields : c.fields.entries = fieldEntries (declaredFields members)
  methods : c.methods.entries = methodEntries c.name (declaredHeaders members)
  constructorKey :
    c.constructorKey = (lastOfKind? .constructor (declaredHeaders members)).map headerKey
  destructorKey :
    c.destructorKey = (lastOfKind? .destructor (declaredHeaders members)).map headerKey

/-- A name that is declared again gets the visibility it is declared with now. -/
theorem addField_entries {c : Class} {fields : List (Visibility × String)}
    (h : c.fields.entries = fieldEntries fields) (name : String) (visibility : Visibility) :
    (c.addField name visibility).fields.entries =
      fieldEntries (fields ++ [(visibility, name)]) := by
  let x : Visibility × String := (visibility, name)
  change Table.insertIn (fieldKey x)
    ⟨visibility, (Table.findIn (fieldKey x) c.fields.entries).elim name FieldEntry.spelling⟩
    c.fields.entries = fieldEntries (fields ++ [x])
  rw [h]
  unfold fieldEntries
  by_cases hold : fieldKey x ∈ fields.map fieldKey
  · have hmem := (mem_map_firsts fields _).mpr hold
    obtain ⟨y, hy, hkey⟩ := List.mem_map.mp hmem
    rw [firsts_concat_of_mem hold, Table.insertIn_map_of_mem _ (nodup_firsts fields) hmem,
      ← hkey, Table.findIn_map_of_mem _ (nodup_firsts fields) hy]
    apply List.map_congr_left
    intro z hz
    rw [latest_concat]
    by_cases hzx : fieldKey z = fieldKey x
    · have hzy : z = y := List.inj_on_of_nodup_map (nodup_firsts fields) hz hy (hzx.trans hkey.symm)
      rw [if_pos (hzx.trans hkey.symm), if_pos hzx.symm, hzy]
      rfl
    · rw [if_neg (hkey ▸ hzx), if_neg (Ne.symm hzx)]
  · have hnew : fieldKey x ∉ (firsts fieldKey fields).map fieldKey :=
      fun hmem => hold ((mem_map_firsts fields _).mp hmem)
    rw [firsts_concat_of_not_mem hold, Table.findIn_map_of_not_mem _ hnew,
      Table.insertIn_map_of_not_mem _ hnew, List.map_append, List.map_singleton, latest_concat,
      if_pos rfl]
    congr 1
    apply List.map_congr_left
    intro z hz
    have hne : fieldKey x ≠ fieldKey z := fun he => hnew (he ▸ List.mem_map_of_mem hz)
    rw [latest_concat, if_neg hne]

/-- Fields of one visibility are declared to a class. -/
def addFields (c : Class) (visibility : Visibility) (names : List String) : Class :=
  names.foldl (fun c name => c.addField name visibility) c

theorem addFields_eq {c : Class} {fields : List (Visibility × String)}
    (h : c.fields.entries = fieldEntries fields) (visibility : Visibility) (names : List String) :
    c.addFields visibility names =
      { c with fields := ⟨fieldEntries (fields ++ names.map (visibility, ·))⟩ } := by
  induction names generalizing c fields with
  | nil =>
    rw [List.map_nil, List.append_nil, ← h]
    rfl
  | cons name names ih =>
    have hfirst := addField_entries h name visibility
    rw [List.map_cons, List.append_cons]
    exact ih hfirst

theorem bind_constructorKey (c : Class) (m : Method) :
    (c.bind m).constructorKey = if m.kind = .constructor then some m.key else c.constructorKey := by
  unfold bind
  split <;> simp_all

theorem bind_destructorKey (c : Class) (m : Method) :
    (c.bind m).destructorKey = if m.kind = .destructor then some m.key else c.destructorKey := by
  unfold bind
  split <;> simp_all

/-- A header declares its method to a class. -/
def declareHeader (c : Class) (x : Visibility × MethodHeader) : Class :=
  c.declareMethod x.2.name x.2.kind (paramNames x.2.params) x.1

variable {c : Class} {headers : List (Visibility × MethodHeader)} {x : Visibility × MethodHeader}

/-- A header is left out if there is one of its name. -/
theorem declareHeader_of_mem (h : c.methods.entries = methodEntries c.name headers)
    (hold : headerKey x ∈ headers.map headerKey) : c.declareHeader x = c := by
  obtain ⟨y, hy, hkey⟩ := List.mem_map.mp ((mem_map_firsts headers _).mpr hold)
  have hfound : c.methods.find? (headerKey x) = some (headerEntry c.name y) := by
    unfold Table.find?
    rw [h, ← hkey]
    exact Table.findIn_map_of_mem _ (nodup_firsts headers) hy
  have hcontains : c.methods.contains (headerKey x) := by
    unfold Table.contains
    rw [hfound]
    rfl
  exact if_pos hcontains

theorem declareHeader_of_not_mem (h : c.methods.entries = methodEntries c.name headers)
    (hnew : headerKey x ∉ headers.map headerKey) :
    c.declareHeader x =
      { c with methods := ⟨methodEntries c.name (headers ++ [x])⟩ }.bind
        (headerEntry c.name x).method := by
  have hfirst : headerKey x ∉ (firsts headerKey headers).map headerKey :=
    fun hmem => hnew ((mem_map_firsts headers _).mp hmem)
  have hnone : c.methods.find? (headerKey x) = none := by
    unfold Table.find?
    rw [h]
    exact Table.findIn_map_of_not_mem _ hfirst
  have hcontains : ¬ c.methods.contains (headerKey x) := by
    unfold Table.contains
    rw [hnone]
    exact Bool.false_ne_true
  have hinsert : c.methods.insert (headerKey x) (headerEntry c.name x) =
      ⟨methodEntries c.name (headers ++ [x])⟩ := by
    unfold Table.insert methodEntries
    rw [h, firsts_concat_of_not_mem hnew, List.map_append, List.map_singleton]
    exact congrArg _ (Table.insertIn_map_of_not_mem _ hfirst _)
  rw [← hinsert]
  exact if_neg hcontains

namespace Tabulates

variable {members : List (Visibility × Member)}

theorem empty (name : String) : Tabulates { name } [] where
  fields := rfl
  methods := rfl
  constructorKey := rfl
  destructorKey := rfl

theorem addFields (h : c.Tabulates members) (visibility : Visibility) (group : NameGroup) :
    (c.addFields visibility group.names).Tabulates (members ++ [(visibility, .field group)]) := by
  have hfields : declaredFields (members ++ [(visibility, .field group)]) =
      declaredFields members ++ group.names.map (visibility, ·) := by
    rw [declaredFields_append]
    exact congrArg _ (List.append_nil _)
  have hheaders : declaredHeaders (members ++ [(visibility, .field group)]) =
      declaredHeaders members := by
    rw [declaredHeaders_append]
    exact List.append_nil _
  rw [addFields_eq h.fields, ← hfields]
  constructor
  · rfl
  · rw [hheaders, h.methods]
  · rw [hheaders, h.constructorKey]
  · rw [hheaders, h.destructorKey]

theorem declareHeader (h : c.Tabulates members) (x : Visibility × MethodHeader) :
    (c.declareHeader x).Tabulates (members ++ [(x.1, .method x.2)]) := by
  have hfields : declaredFields (members ++ [(x.1, .method x.2)]) = declaredFields members := by
    rw [declaredFields_append]
    exact List.append_nil _
  have hheaders : declaredHeaders (members ++ [(x.1, .method x.2)]) =
      declaredHeaders members ++ [x] :=
    declaredHeaders_append _ _
  by_cases hold : headerKey x ∈ (declaredHeaders members).map headerKey
  · rw [declareHeader_of_mem h.methods hold]
    constructor
    · rw [hfields, h.fields]
    · rw [hheaders, h.methods, methodEntries, methodEntries, firsts_concat_of_mem hold]
    · rw [hheaders, h.constructorKey, lastOfKind?_concat_of_mem hold]
    · rw [hheaders, h.destructorKey, lastOfKind?_concat_of_mem hold]
  · rw [declareHeader_of_not_mem h.methods hold]
    constructor
    · rw [bind_fields, hfields, h.fields]
    · rw [bind_methods, bind_name, hheaders]
    · rw [bind_constructorKey, hheaders, lastOfKind?_concat_of_not_mem hold, h.constructorKey,
        apply_ite (Option.map headerKey)]
      rfl
    · rw [bind_destructorKey, hheaders, lastOfKind?_concat_of_not_mem hold, h.destructorKey,
        apply_ite (Option.map headerKey)]
      rfl

variable {visibility : Visibility} {c' : Class}

/-- What one member adds. -/
theorem addMember {m : Member} (h : c.Tabulates members)
    (hadd : c.addMember visibility m = .ok c') :
    c'.Tabulates (members ++ [(visibility, m)]) := by
  cases m with
  | field group =>
    cases hadd
    exact h.addFields visibility group
  | method header =>
    cases hadd
    exact h.declareHeader (visibility, header)
  | bare => cases hadd

/-- What all the members of a class body add. -/
theorem addListed {xs : List (Visibility × Member)} (h : c.Tabulates members)
    (hadd : Class.addListed xs c = .ok c') : c'.Tabulates (members ++ xs) := by
  induction xs generalizing c members with
  | nil =>
    cases hadd
    rwa [List.append_nil]
  | cons x xs ih =>
    obtain ⟨c₁, hfirst, hrest⟩ := addListed_cons hadd
    rw [List.append_cons]
    exact ih (h.addMember hfirst) hrest

theorem ofDecl {d : ClassDecl} (h : Class.ofDecl d = .ok c) :
    c.Tabulates (BodyItem.tagged (d.items.flatMap ClassItem.flat)) := by
  have htagged : BodyItem.tagged (d.items.flatMap ClassItem.flat) =
      ClassItem.listed .publ d.items :=
    ClassItem.taggedFrom_flat [] d.items
  unfold Class.ofDecl at h
  rw [addItems_eq] at h
  rw [htagged]
  exact (Tabulates.empty d.name).addListed h

/-- A method that is bound by the key of a header is the one of that header. -/
theorem find?_headerKey (h : c.Tabulates members) {kind : MethodKind}
    (hx : lastOfKind? kind (declaredHeaders members) = some x) :
    c.methods.find? (headerKey x) = some (headerEntry c.name x) := by
  have hmem := List.mem_of_mem_filter (List.mem_of_getLast? hx)
  unfold Table.find?
  rw [h.methods]
  exact Table.findIn_map_of_mem _ (nodup_firsts _) hmem

theorem bound_eq (h : c.Tabulates members) (kind : MethodKind) :
    (((lastOfKind? kind (declaredHeaders members)).map headerKey).bind c.methods.find?).map
        MethodEntry.method =
      (lastOfKind? kind (declaredHeaders members)).map fun x => (headerEntry c.name x).method := by
  cases hx : lastOfKind? kind (declaredHeaders members) with
  | none => rfl
  | some x =>
    rw [Option.map_some, Option.bind_some, h.find?_headerKey hx]
    rfl

theorem constructor?_eq (h : c.Tabulates members) :
    c.constructor? = (lastOfKind? .constructor (declaredHeaders members)).map fun x =>
      (headerEntry c.name x).method := by
  unfold Class.constructor?
  rw [h.constructorKey, h.bound_eq]

theorem destructor?_eq (h : c.Tabulates members) :
    c.destructor? = (lastOfKind? .destructor (declaredHeaders members)).map fun x =>
      (headerEntry c.name x).method := by
  unfold Class.destructor?
  rw [h.destructorKey, h.bound_eq]

end Tabulates

end Class

/-- A store with one more class that is known by its name. -/
def Store.withClass (s : Store) (c : Class) : Store :=
  { s with
    classes := s.classes.push c
    catalog := s.catalog.insert (Key.of c.name) s.classes.size }

/-- What comes of the declaration of a class. -/
theorem run_declareClass {d : ClassDecl} {c : Class} (hc : Class.ofDecl d = .ok c)
    (hname : c.name = d.name) (host : Host) (m : Machine) :
    (declareClass d).run host m =
      if m.store.catalog.contains (Key.of d.name) then
        (.error (.fault (some d.location) (.duplicateClass d.name)), m)
      else
        Machine.logStep host (.declareClass d.name) (some d.location)
          { m with store := m.store.withClass c } := by
  have hdefine : m.perform host (.defineClass c d.location) =
      m.update (some d.location)
        (if m.store.catalog.contains (Key.of d.name) then .error (.duplicateClass d.name)
        else .ok (m.store.withClass c)) := by
    rw [← hname]
    exact congrArg (m.update _) (Store.defineNew_eq m.store c)
  unfold declareClass
  rw [hc]
  dsimp only
  rw [Script.run_bind, Script.run_perform, hdefine]
  by_cases hold : m.store.catalog.contains (Key.of d.name)
  · rw [if_pos hold, if_pos hold]
    rfl
  · rw [if_neg hold, if_neg hold]
    rfl

/-- Step rules leave the classes as they are. -/
theorem Machine.logStep_classes (host : Host) (step : Step) (location : Option Location)
    (m : Machine) : m.store.Extends (m.logStep host step location).2.store :=
  logStep_keeps (extends_assignKeeps m.store) (all_assigns _ _) (.refl _) step location

/-- Reads a class declaration and declares the class. What the text of the class says is unique.
The class has the tables that its members declare under the markers before them. A class of its
name stays what it is, and so does the log. -/
theorem class_of_tokens {src : Source} {ts : List Token} {d : ClassDecl} {rest : Fewer ts}
    (h : Parser.classDecl src ts = .ok (d, rest)) :
    ∃ (used : List Token) (items : List BodyItem) (c : Class), ts = used ++ rest.val ∧
      (∀ name items', ClassText src used name items' ↔ name = d.name ∧ items' = items) ∧
      c.name = d.name ∧ c.Tabulates (BodyItem.tagged items) ∧
      c.constructor? =
        (lastOfKind? .constructor (declaredHeaders (BodyItem.tagged items))).map
          (fun x => (headerEntry d.name x).method) ∧
      c.destructor? =
        (lastOfKind? .destructor (declaredHeaders (BodyItem.tagged items))).map
          (fun x => (headerEntry d.name x).method) ∧
      ∀ (host : Host) (m : Machine),
        let outcome := (declareClass d).run host m
        if m.store.catalog.contains (Key.of d.name) then
          outcome = (.error (.fault (some d.location) (.duplicateClass d.name)), m)
        else
          outcome.2.store.classes = m.store.classes.push c ∧
          outcome.2.store.catalog =
            m.store.catalog.insert (Key.of d.name) m.store.classes.size ∧
          outcome = Machine.logStep host (.declareClass d.name) (some d.location)
            { m with store := m.store.withClass c } := by
  obtain ⟨used, hts, -, hd⟩ : ∃ used, ts = used ++ rest.val ∧ NoEnd used ∧
      Derives src .classDecl used d := by
    have hread := classDecl_sound src ts
    rwa [h] at hread
  obtain ⟨c, hc, -⟩ := Class.Wellformed.ofDecl (declared_of_derives hd)
  have hname : c.name = d.name := congrArg Prod.fst (Class.heading_ofDecl hc)
  have htables := Class.Tabulates.ofDecl hc
  refine ⟨used, d.items.flatMap ClassItem.flat, c, hts, ?_, hname, htables, ?_, ?_, ?_⟩
  · intro name items'
    constructor
    · exact ClassText.unique hd
    · rintro ⟨rfl, rfl⟩
      exact .of_derives hd
  · rw [← hname]
    exact htables.constructor?_eq
  · rw [← hname]
    exact htables.destructor?_eq
  · intro host m
    dsimp only
    rw [run_declareClass hc hname]
    split
    · rfl
    · have hkept := Machine.logStep_classes host (.declareClass d.name) (some d.location)
        { m with store := m.store.withClass c }
      refine ⟨hkept.classes, ?_, rfl⟩
      rw [hkept.catalog, ← hname]
      rfl

/-- A class that declares a field and a method again, in other letters. -/
theorem class_of_tokens_repeated :
    let name (text : String) : Token := ⟨.ident, text, {}⟩
    let sign (kind : TokenKind) : Token := ⟨kind, "", {}⟩
    let run := [sign .procedureKw, name "Run", sign .semi]
    let first := [name "A", sign .colon, name "Integer", sign .semi]
    let again := [sign .constructorKw, name "run", sign .semi]
    let second := [name "a", sign .colon, name "Integer", sign .semi]
    let make := [sign .constructorKw, name "Make", sign .semi]
    let body :=
      run ++ (sign .privateKw :: (first ++ (again ++ (sign .publicKw :: (second ++ (make ++ []))))))
    let text := name "T" :: sign .equals :: sign .classKw :: body ++ [sign .endKw, sign .semi]
    ∃ (d : ClassDecl) (rest : Fewer text) (c : Class),
      Parser.classDecl ⟨"", []⟩ text = .ok (d, rest) ∧
      ((declareClass d).run {} {}).2.store.classes = #[c] ∧
      c.fields.entries = [(Key.of "a", ⟨.publ, "A"⟩)] ∧
      c.methods.keys = [Key.of "run", Key.of "make"] ∧
      c.constructor?.map Method.name = some "Make" := by
  intro name sign run first again second make body text
  have header (word : TokenKind) (kind : MethodKind) (title : String)
      (hw : (word, kind) ∈ methodWords) (hk : kind ≠ .function) :
      Derives ⟨"", []⟩ .member [sign word, name title, sign .semi] _ :=
    .method (.header hw rfl .noParams (.noResultType hk) rfl)
  have field (title : String) :
      Derives ⟨"", []⟩ .member [name title, sign .colon, name "Integer", sign .semi] _ :=
    .field (.group (.lastName rfl) rfl rfl) rfl
  have hrun := header .procedureKw .procedure "Run" (by decide) nofun
  have hagain := header .constructorKw .constructor "run" (by decide) nofun
  have hmake := header .constructorKw .constructor "Make" (by decide) nofun
  have hpublic : ((sign .publicKw).kind, Visibility.publ) ∈ markers := by decide
  have hprivate : ((sign .privateKw).kind, Visibility.priv) ∈ markers := by decide
  have hbody : Body ⟨"", []⟩ body _ :=
    .member hrun (.marker hprivate (.member (field "A") (.member hagain
      (.marker hpublic (.member (field "a") (.member hmake .nil))))))
  have htext : ClassText ⟨"", []⟩ text "T" _ := .intro rfl rfl rfl hbody rfl rfl
  obtain ⟨d, hd, -, -⟩ := htext.derives
  have hreads := classDecl_complete hd []
  rw [List.append_nil] at hreads
  obtain ⟨hrest, hread⟩ := hreads
  obtain ⟨used, items, c, hused, hiff, hname, htables, hconstructor, -, hdeclared⟩ :=
    class_of_tokens hread
  rw [List.append_nil] at hused
  obtain ⟨htitle, rfl⟩ := (hiff _ _).mp (hused ▸ htext)
  refine ⟨d, _, c, hread, (hdeclared {} {}).1, ?_, ?_, ?_⟩
  · rw [htables.fields]
    decide +kernel
  · unfold Table.keys
    rw [htables.methods, hname, ← htitle]
    decide +kernel
  · rw [hconstructor, ← htitle]
    decide +kernel

end ObjectPascal
