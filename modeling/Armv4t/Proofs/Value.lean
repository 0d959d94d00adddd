import Armv4t.Value
import Mathlib.Data.List.Basic
import Mathlib.Data.Set.List
import Mathlib.Tactic.Common

/-!
# What readers of structured values accept

`Value.Reads` says of a reader that it accepts exactly the values of a form, and each as what it is
the written form of.  Words are read so, and lists of a fixed length whose items are.
`Value.GivesSome` describes the ways in which a value gives some of the fields of a record, as a
list or among its members in any order, and `Value.Gives` those in which it gives all of them.  What
is read is just what is given (`Value.fields?_eq_some_iff_givesSome`, `Value.fields?_eq_some_iff`),
with defaults in the place of what is not (`Value.orDefault_eq_some_iff_view`).
-/

namespace Armv4t

namespace Value

/-! ### Values of a form -/

/-- A number that is written as an integer and lies in the range of words. -/
def IsWord (value : Value) : Prop :=
  ∃ number : Int, value = integer number ∧ 0 ≤ number ∧ number < 0x100000000

/-- A list of a given length whose items all have one form. -/
def IsList (length : Nat) (form : Value → Prop) (value : Value) : Prop :=
  ∃ items, value = array items ∧ items.length = length ∧ ∀ item ∈ items, form item

/-- A reader accepts the values of a form, each as what it is the written form of. -/
structure Reads {α : Type} (form : Value → Prop) (read : Value → Option α)
    (write : α → Value) : Prop where
  read_eq_some_iff (value : Value) (a : α) : read value = some a ↔ value = write a
  form_iff (value : Value) : form value ↔ ∃ a, value = write a

theorem ofWord_injective {v w : Word} (h : ofWord v = ofWord w) : v = w := by
  have hread := congrArg word? h
  rw [word?_ofWord, word?_ofWord] at hread
  exact Option.some.inj hread

theorem ofWord_ofInt {number : Int} (h : 0 ≤ number ∧ number < 0x100000000) :
    ofWord (.ofInt 32 number) = integer number := by
  have hnumber : ((BitVec.ofInt 32 number).toNat : Int) = number := by
    rw [BitVec.toNat_ofInt]
    omega
  unfold ofWord
  rw [hnumber]

theorem reads_word : Reads IsWord word? ofWord where
  read_eq_some_iff value word := by
    constructor
    · intro h
      cases value with
      | integer number =>
        unfold word? at h
        dsimp only at h
        -- a number is a word exactly when it is in range
        by_cases hrange : 0 ≤ number ∧ number < 0x100000000
        · rw [if_pos hrange] at h
          rw [← Option.some.inj h, ofWord_ofInt hrange]
        · rw [if_neg hrange] at h
          nomatch h
      | _ => nomatch h
    · rintro rfl
      exact word?_ofWord word
  form_iff value := by
    constructor
    · rintro ⟨number, rfl, hrange⟩
      exact ⟨.ofInt 32 number, (ofWord_ofInt hrange).symm⟩
    · rintro ⟨word, rfl⟩
      have hlt := word.isLt
      exact ⟨word.toNat, rfl, by omega, by omega⟩

namespace Reads

variable {α β : Type} {form : Value → Prop} {read : Value → Option α} {write : α → Value}

theorem list?_eq_some_iff (h : Reads form read write) (value : Value) (values : List α) :
    value.list? read = some values ↔ value = array (values.map write) := by
  -- the items are read, and the values written, one by one
  have hitems (items : List Value) :
      items.mapM read = some values ↔ items = values.map write := by
    induction items generalizing values with
    | nil =>
      cases values with
      | nil => exact ⟨fun _ => rfl, fun _ => rfl⟩
      | cons a rest => exact ⟨fun h => (nomatch h), fun h => (nomatch h)⟩
    | cons item items ih =>
      rw [List.mapM_cons]
      constructor
      · intro hread
        obtain ⟨a, ha, hrest⟩ := Option.bind_eq_some_iff.1 hread
        obtain ⟨rest, hr, hvalues⟩ := Option.bind_eq_some_iff.1 hrest
        obtain rfl := Option.some.inj hvalues
        rw [List.map_cons, (h.read_eq_some_iff item a).1 ha, (ih rest).1 hr]
      · intro hwritten
        cases values with
        | nil => nomatch hwritten
        | cons a rest =>
          obtain ⟨hitem, hrest⟩ := List.cons.inj hwritten
          rw [(h.read_eq_some_iff item a).2 hitem, (ih rest).2 hrest]
          rfl
  cases value with
  | array items =>
    show items.mapM read = some values ↔ array items = array (values.map write)
    rw [hitems items, array.injEq]
  | _ => exact ⟨fun h => (nomatch h), fun h => (nomatch h)⟩

/-- A reader of lists that takes exactly the lists of one length. -/
theorem packed (h : Reads form read write) {length : Nat} {pack : List α → Option β}
    {unpack : β → List α} (hpack : ∀ values b, pack values = some b ↔ values = unpack b)
    (hlength : ∀ values, values.length = length ↔ ∃ b, values = unpack b) :
    Reads (IsList length form) (fun value => (value.list? read).bind pack)
      (fun b => array ((unpack b).map write)) where
  read_eq_some_iff value b := by
    -- reading the values and packing them are inverted one after the other
    rw [Option.bind_eq_some_iff]
    constructor
    · rintro ⟨values, hvalues, hb⟩
      rw [hpack] at hb
      rw [(h.list?_eq_some_iff value values).1 hvalues, hb]
    · intro hvalue
      exact ⟨unpack b, (h.list?_eq_some_iff value _).2 hvalue, (hpack _ b).2 rfl⟩
  form_iff value := by
    constructor
    · rintro ⟨items, rfl, hn, hform⟩
      -- what has the form is what is written of some value
      have hrange : items ∈ Set.range (List.map write) := by
        rw [Set.range_list_map]
        intro item hitem
        obtain ⟨a, ha⟩ := (h.form_iff item).1 (hform item hitem)
        exact ⟨a, ha.symm⟩
      obtain ⟨values, rfl⟩ := hrange
      rw [List.length_map] at hn
      obtain ⟨b, rfl⟩ := (hlength values).1 hn
      exact ⟨b, rfl⟩
    · rintro ⟨b, rfl⟩
      refine ⟨_, rfl, ?_, fun item hitem => ?_⟩
      · rw [List.length_map]
        exact (hlength _).2 ⟨b, rfl⟩
      · obtain ⟨a, -, rfl⟩ := List.mem_map.1 hitem
        exact (h.form_iff _).2 ⟨a, rfl⟩

theorem vector (h : Reads form read write) (n : Nat) :
    Reads (IsList n form) (vector? read n) (fun values => array (values.toList.map write)) := by
  apply h.packed
  · intro values vector
    -- a list of another length has no vector
    by_cases hn : values.length = n
    · rw [dif_pos hn, Option.some.injEq]
      constructor
      · rintro rfl
        rfl
      · rintro rfl
        rfl
    · rw [dif_neg hn]
      constructor
      · intro hv
        nomatch hv
      · rintro rfl
        exact absurd vector.length_toList hn
  · intro values
    constructor
    · intro hn
      exact ⟨⟨values.toArray, hn⟩, rfl⟩
    · rintro ⟨vector, rfl⟩
      exact vector.length_toList

end Reads

theorem reads_words (n : Nat) :
    Reads (IsList n IsWord) (vector? word? n) fun words => ofWords words.toList :=
  reads_word.vector n

/-! ### Fields among the members of a record -/

/-- The member that gives a field under its name, if the field is given. -/
def memberOf (field : String × Option Value) : Option (String × Value) :=
  field.2.map (field.1, ·)

theorem name_of_memberOf {field : String × Option Value} {member : String × Value}
    (h : memberOf field = some member) : member.1 = field.1 := by
  obtain ⟨value, -, rfl⟩ := Option.map_eq_some_iff.1 h
  rfl

theorem filterMap_memberOf_cons (field : String × Option Value)
    (rest : List (String × Option Value)) :
    (field :: rest).filterMap memberOf = (memberOf field).toList ++ rest.filterMap memberOf := by
  rw [List.filterMap_cons]
  cases memberOf field <;> rfl

/-- If every field is given, so is a member for each. -/
theorem filterMap_memberOf_zip_some (names : List String) (fields : List Value) :
    (names.zip (fields.map some)).filterMap memberOf = names.zip fields := by
  have hsome : memberOf ∘ Prod.map id some = some := rfl
  rw [List.zip_map_right, List.filterMap_map, hsome, List.filterMap_some]

theorem name_mem_of_mem_filterMap {fields : List (String × Option Value)}
    {member : String × Value} (h : member ∈ fields.filterMap memberOf) :
    member.1 ∈ fields.map Prod.fst := by
  obtain ⟨field, hfield, hmember⟩ := List.mem_filterMap.1 h
  rw [name_of_memberOf hmember]
  exact List.mem_map_of_mem hfield

/-- Of the members that give fields of different names, only one can have a given name. -/
theorem filter_filterMap_memberOf {fields : List (String × Option Value)}
    (hn : (fields.map Prod.fst).Nodup) {field : String × Option Value} (hfield : field ∈ fields) :
    (fields.filterMap memberOf).filter (·.1 = field.1) = (memberOf field).toList := by
  induction fields with
  | nil => nomatch hfield
  | cons first rest ih =>
    rw [List.map_cons, List.nodup_cons] at hn
    obtain ⟨hnew, hrest⟩ := hn
    rw [filterMap_memberOf_cons, List.filter_append]
    rcases List.mem_cons.1 hfield with rfl | hmem
    -- the field is the first one, whose name is not used again
    · have hfirst : (memberOf field).toList.filter (·.1 = field.1) = (memberOf field).toList := by
        rw [List.filter_eq_self]
        intro member hmember
        exact decide_eq_true (name_of_memberOf (Option.mem_toList.1 hmember))
      have hnone : (rest.filterMap memberOf).filter (·.1 = field.1) = [] := by
        rw [List.filter_eq_nil_iff]
        intro member hmember heq
        rw [← of_decide_eq_true heq] at hnew
        exact hnew (name_mem_of_mem_filterMap hmember)
      rw [hfirst, hnone, List.append_nil]
    -- the field comes later, and the first one has another name
    · have hnone : (memberOf first).toList.filter (·.1 = field.1) = [] := by
        rw [List.filter_eq_nil_iff]
        intro member hmember heq
        rw [← name_of_memberOf (Option.mem_toList.1 hmember), of_decide_eq_true heq] at hnew
        exact hnew (List.mem_map_of_mem hmem)
      rw [hnone, List.nil_append, ih hrest hmem]

/-- If the members of each name are those that give the field of that name, then the members that
have any of the names are those that give the fields. -/
theorem filter_perm_filterMap_memberOf {fields : List (String × Option Value)}
    {members : List (String × Value)} (hn : (fields.map Prod.fst).Nodup)
    (h : ∀ field ∈ fields, members.filter (·.1 = field.1) = (memberOf field).toList) :
    (members.filter (·.1 ∈ fields.map Prod.fst)).Perm (fields.filterMap memberOf) := by
  induction fields with
  | nil => simp
  | cons first rest ih =>
    rw [List.map_cons, List.nodup_cons] at hn
    obtain ⟨hnew, hrest⟩ := hn
    rw [List.forall_mem_cons] at h
    obtain ⟨hfirst, hmembers⟩ := h
    rw [filterMap_memberOf_cons, List.map_cons]
    -- the members with the first name on one side and those with another name on the other
    refine (List.filter_append_perm (·.1 = first.1) _).symm.trans (List.Perm.append ?_ ?_)
    · rw [List.filter_filter, ← hfirst]
      apply List.Perm.of_eq
      apply List.filter_congr
      intro member _
      simp +contextual
    · rw [List.filter_filter]
      refine List.Perm.trans (List.Perm.of_eq ?_) (ih hrest hmembers)
      apply List.filter_congr
      intro member _
      by_cases heq : member.1 = first.1
      · simp [heq, hnew]
      · simp [heq]

/-- Each field has its member and no other of its name exactly when the members are, in some order,
those that give the fields and others that have none of their names. -/
theorem forall_filter_eq_iff {fields : List (String × Option Value)}
    {members : List (String × Value)} (hn : (fields.map Prod.fst).Nodup) :
    (∀ field ∈ fields, members.filter (·.1 = field.1) = (memberOf field).toList) ↔
      ∃ others, (∀ member ∈ others, member.1 ∉ fields.map Prod.fst) ∧
        members.Perm (fields.filterMap memberOf ++ others) := by
  constructor
  · intro h
    -- the others are what is left when the members with the names are taken out
    refine ⟨members.filter fun member => !decide (member.1 ∈ fields.map Prod.fst), ?_, ?_⟩
    · intro member hmember
      simpa using (List.mem_filter.1 hmember).2
    · have hparts := List.filter_append_perm (fun member => decide (member.1 ∈ fields.map Prod.fst))
        members
      exact hparts.symm.trans ((filter_perm_filterMap_memberOf hn h).append_right _)
  · rintro ⟨others, hothers, hperm⟩ field hfield
    -- the others have none of the names, and so no part in the filter
    have hnone : others.filter (·.1 = field.1) = [] := by
      rw [List.filter_eq_nil_iff]
      intro member hmember heq
      apply hothers member hmember
      rw [of_decide_eq_true heq]
      exact List.mem_map_of_mem hfield
    have hfilter := hperm.filter (·.1 = field.1)
    rw [List.filter_append, filter_filterMap_memberOf hn hfield, hnone, List.append_nil] at hfilter
    -- there is at most one such member, and so only one order
    cases hmember : memberOf field with
    | none =>
      rw [hmember] at hfilter
      exact List.perm_nil.1 hfilter
    | some member =>
      rw [hmember] at hfilter
      exact List.perm_singleton.1 hfilter

/-! ### Reading the fields of a record -/

/-- A value gives some of the fields with some names: the leading ones as a list, or any of them in
a record, in any order and among members of other names. -/
def GivesSome (names : List String) (value : Value) (fields : List (Option Value)) : Prop :=
  fields.length = names.length ∧
    ((∃ items missing, value = array items ∧
        fields = items.map some ++ List.replicate missing none) ∨
      ∃ members others, value = object members ∧ (∀ member ∈ others, member.1 ∉ names) ∧
        members.Perm ((names.zip fields).filterMap memberOf ++ others))

/-- A value gives the fields with some names: as the list of them, or each once under its name among
the members of a record. -/
def Gives (names : List String) (value : Value) (fields : List Value) : Prop :=
  fields.length = names.length ∧
    (value = array fields ∨ ∃ members, value = object members ∧
      ∀ field ∈ names.zip fields, members.filter (·.1 = field.1) = [field])

theorem member?_eq_some_iff {members : List (String × Value)} {name : String}
    {field : Option Value} :
    member? members name = some field ↔
      members.filter (·.1 = name) = (memberOf (name, field)).toList := by
  unfold member? memberOf
  cases hfilter : members.filter (·.1 = name) with
  | nil =>
    cases field with
    | none => exact ⟨fun _ => rfl, fun _ => rfl⟩
    | some value => exact ⟨fun h => (nomatch h), fun h => (nomatch h)⟩
  | cons member rest =>
    cases rest with
    | nil =>
      -- exactly one member has the name
      have hmem : member ∈ members.filter (·.1 = name) := by
        rw [hfilter]
        exact List.mem_cons_self
      have hname : member.1 = name := of_decide_eq_true (List.mem_filter.1 hmem).2
      cases field with
      | none => exact ⟨fun h => (nomatch h), fun h => (nomatch h)⟩
      | some value =>
        constructor
        · intro h
          rw [← Option.some.inj (Option.some.inj h), ← hname]
          rfl
        · intro h
          rw [(List.cons.inj h).1]
    -- two members of one name are refused
    | cons other rest => cases field <;> exact ⟨fun h => (nomatch h), fun h => (nomatch h)⟩

theorem mapM_member?_eq_some_iff {names : List String} {members : List (String × Value)}
    {fields : List (Option Value)} :
    names.mapM (member? members) = some fields ↔ fields.length = names.length ∧
      ∀ field ∈ names.zip fields, members.filter (·.1 = field.1) = (memberOf field).toList := by
  induction names generalizing fields with
  | nil =>
    cases fields with
    | nil => exact ⟨fun _ => ⟨rfl, fun _ h => (nomatch h)⟩, fun _ => rfl⟩
    | cons field fields => exact ⟨fun h => (nomatch h), fun h => (nomatch h.1)⟩
  | cons name names ih =>
    rw [List.mapM_cons]
    cases fields with
    | nil =>
      constructor
      · intro h
        obtain ⟨a, -, hrest⟩ := Option.bind_eq_some_iff.1 h
        obtain ⟨b, -, hb⟩ := Option.bind_eq_some_iff.1 hrest
        nomatch hb
      · intro h
        nomatch h.1
    | cons field fields =>
      rw [List.zip_cons_cons, List.forall_mem_cons, List.length_cons, List.length_cons,
        Nat.add_right_cancel_iff]
      constructor
      · intro h
        obtain ⟨a, ha, hrest⟩ := Option.bind_eq_some_iff.1 h
        obtain ⟨b, hb, hab⟩ := Option.bind_eq_some_iff.1 hrest
        obtain ⟨rfl, rfl⟩ := List.cons.inj (Option.some.inj hab)
        obtain ⟨hlen, hmem⟩ := ih.1 hb
        exact ⟨hlen, member?_eq_some_iff.1 ha, hmem⟩
      · rintro ⟨hlen, hfield, hmem⟩
        rw [member?_eq_some_iff.2 hfield, ih.2 ⟨hlen, hmem⟩]
        rfl

theorem fields?_array_eq_some_iff {names : List String} {items : List Value}
    {fields : List (Option Value)} :
    (array items).fields? names = some fields ↔ fields.length = names.length ∧
      ∃ missing, fields = items.map some ++ List.replicate missing none := by
  unfold fields?
  dsimp only
  constructor
  -- fewer values than names leave the last fields missing
  · intro h
    by_cases hle : items.length ≤ names.length
    · rw [if_pos hle] at h
      obtain rfl := Option.some.inj h
      refine ⟨?_, _, rfl⟩
      rw [List.length_append, List.length_map, List.length_replicate]
      omega
    · rw [if_neg hle] at h
      nomatch h
  · rintro ⟨hlen, missing, rfl⟩
    rw [List.length_append, List.length_map, List.length_replicate] at hlen
    -- the number of missing fields is what makes the lengths agree
    have hmissing : names.length - items.length = missing := by omega
    rw [if_pos (by omega), hmissing]

/-- Reading the fields of a record yields those that the value gives. -/
theorem fields?_eq_some_iff_givesSome {names : List String} {value : Value}
    {fields : List (Option Value)} (hn : names.Nodup) :
    value.fields? names = some fields ↔ value.GivesSome names fields := by
  unfold GivesSome
  cases value with
  | array items =>
    rw [fields?_array_eq_some_iff]
    constructor
    · rintro ⟨hlen, missing, hfields⟩
      exact ⟨hlen, .inl ⟨items, missing, rfl, hfields⟩⟩
    · rintro ⟨hlen, ⟨_, missing, hitems, hfields⟩ | ⟨_, _, hmembers, -⟩⟩
      · rw [array.inj hitems]
        exact ⟨hlen, missing, hfields⟩
      · nomatch hmembers
  | object members =>
    show names.mapM (member? members) = some fields ↔ _
    rw [mapM_member?_eq_some_iff]
    refine and_congr_right fun hlen => ?_
    -- there is a field for each name, so that zipping them loses no name
    have hnames : (names.zip fields).map Prod.fst = names := List.map_fst_zip (by omega)
    rw [forall_filter_eq_iff (by rwa [hnames]), hnames]
    constructor
    · rintro ⟨others, hothers, hperm⟩
      exact .inr ⟨members, others, rfl, hothers, hperm⟩
    · rintro (⟨_, _, hitems, -⟩ | ⟨_, others, hmembers, hothers, hperm⟩)
      · nomatch hitems
      · rw [object.inj hmembers]
        exact ⟨others, hothers, hperm⟩
  -- no other value gives fields
  | _ =>
    constructor
    · intro h
      nomatch h
    · rintro ⟨-, ⟨_, _, hitems, -⟩ | ⟨_, _, hmembers, -⟩⟩
      · nomatch hitems
      · nomatch hmembers

/-- All fields of a record are there exactly when it gives them. -/
theorem fields?_eq_some_iff {names : List String} {value : Value} {fields : List Value} :
    value.fields? names = some (fields.map some) ↔ value.Gives names fields := by
  unfold Gives
  cases value with
  | array items =>
    rw [fields?_array_eq_some_iff, List.length_map]
    constructor
    · rintro ⟨hlen, missing, hfields⟩
      -- a field that is missing would be one that is given
      have hnone : missing = 0 := by
        by_contra hne
        have hmem : none ∈ fields.map some := by
          rw [hfields]
          exact List.mem_append_right _ (List.mem_replicate.2 ⟨hne, rfl⟩)
        obtain ⟨field, -, hfield⟩ := List.mem_map.1 hmem
        nomatch hfield
      rw [hnone, List.replicate_zero, List.append_nil] at hfields
      rw [List.map_injective_iff.2 (Option.some_injective _) hfields] at hlen ⊢
      exact ⟨hlen, .inl rfl⟩
    · rintro ⟨hlen, hitems | ⟨_, hmembers, -⟩⟩
      · rw [array.inj hitems]
        exact ⟨hlen, 0, (List.append_nil _).symm⟩
      · nomatch hmembers
  | object members =>
    show names.mapM (member? members) = some (fields.map some) ↔ _
    rw [mapM_member?_eq_some_iff, List.zip_map_right, List.forall_mem_map, List.length_map]
    constructor
    · rintro ⟨hlen, hmem⟩
      exact ⟨hlen, .inr ⟨members, rfl, hmem⟩⟩
    · rintro ⟨hlen, hitems | ⟨_, hmembers, hmem⟩⟩
      · nomatch hitems
      · obtain rfl := object.inj hmembers
        exact ⟨hlen, hmem⟩
  | _ =>
    constructor
    · intro h
      nomatch h
    · rintro ⟨-, hitems | ⟨_, hmembers, -⟩⟩
      · nomatch hitems
      · nomatch hmembers

/-- The members written for the fields of a record give its fields. -/
theorem gives_object_zip {names : List String} {fields : List Value} (hn : names.Nodup)
    (hlen : fields.length = names.length) :
    (object (names.zip fields)).Gives names fields := by
  refine ⟨hlen, .inr ⟨_, rfl, fun field hfield => ?_⟩⟩
  have hnames : ((names.zip (fields.map some)).map Prod.fst).Nodup := by
    rwa [List.map_fst_zip (by rw [List.length_map]; omega)]
  have hgiven : Prod.map id some field ∈ names.zip (fields.map some) := by
    rw [List.zip_map_right]
    exact List.mem_map_of_mem hfield
  have hmembers := filter_filterMap_memberOf hnames hgiven
  rwa [filterMap_memberOf_zip_some] at hmembers

/-- The members written for some fields of a record give those fields. -/
theorem givesSome_object {names : List String} {fields : List (Option Value)}
    (hlen : fields.length = names.length) :
    (object ((names.zip fields).filterMap memberOf)).GivesSome names fields := by
  refine ⟨hlen, .inr ⟨_, [], rfl, ?_, ?_⟩⟩
  · intro member hmember
    nomatch hmember
  · rw [List.append_nil]

/-! ### Fields of one kind -/

theorem bool?_eq_some_iff (value : Value) (flag : Bool) :
    value.bool? = some flag ↔ value = bool flag := by
  constructor
  · intro h
    cases value with
    | bool given => rw [Option.some.inj h]
    | _ => nomatch h
  · rintro rfl
    rfl

/-- A value spells a name: alone, or as the only field of a record, with nothing in it. -/
def Spells (value : Value) (name : String) : Prop :=
  value = string name ∨ value = object [(name, null)]

theorem name?_eq_some_iff {value : Value} {name : String} :
    value.name? = some name ↔ value.Spells name := by
  constructor
  · intro h
    unfold name? at h
    split at h
    · exact .inl (congrArg string (Option.some.inj h))
    · rw [Option.some.inj h]
      exact .inr rfl
    · nomatch h
  · rintro (rfl | rfl) <;> rfl

/-- A kind of thing that has names is read from the values that spell them. -/
theorem bind_name?_eq_some_iff {α : Type} {ofName? : String → Option α} {name : α → String}
    (h : ∀ text a, ofName? text = some a ↔ name a = text) (value : Value) (a : α) :
    value.name?.bind ofName? = some a ↔ value.Spells (name a) := by
  rw [Option.bind_eq_some_iff]
  constructor
  · rintro ⟨text, htext, ha⟩
    rw [(h text a).1 ha]
    exact name?_eq_some_iff.1 htext
  · intro hvalue
    exact ⟨name a, name?_eq_some_iff.2 hvalue, (h _ a).2 rfl⟩

/-- Writing a field that may not be given. -/
theorem rel_map {γ : Type} {form : γ → Value → Prop} {write : γ → Value}
    (h : ∀ c, form c (write c)) {given : Option γ} : Option.Rel form given (given.map write) := by
  cases given with
  | none => exact .none
  | some c => exact .some (h c)

/-- A field that is not given has its default; one that is given is read from a value of its form.
The form may be one of something else, of which what is read is a view. -/
theorem orDefault_eq_some_iff_view {α γ : Type} {default : α} {read : Value → Option α}
    {form : γ → Value → Prop} {view : γ → α}
    (h : ∀ value a, read value = some a ↔ ∃ c, form c value ∧ view c = a) {field : Option Value}
    {a : α} :
    orDefault default read field = some a ↔
      ∃ given : Option γ, Option.Rel form given field ∧ (given.map view).getD default = a := by
  constructor
  · intro hread
    cases field with
    | none => exact ⟨none, .none, Option.some.inj hread⟩
    | some value =>
      obtain ⟨c, hform, hview⟩ := (h value a).1 hread
      exact ⟨some c, .some hform, hview⟩
  · rintro ⟨given, hform, rfl⟩
    cases hform with
    | none => rfl
    | some hform => exact (h _ _).2 ⟨_, hform, rfl⟩

theorem orDefault_eq_some_iff {α : Type} {default : α} {read : Value → Option α}
    {form : α → Value → Prop} (h : ∀ value a, read value = some a ↔ form a value)
    {field : Option Value} {a : α} :
    orDefault default read field = some a ↔
      ∃ given : Option α, Option.Rel form given field ∧ given.getD default = a := by
  have hview : ∀ value a, read value = some a ↔ ∃ c, form c value ∧ id c = a := by
    intro value a
    simp [h]
  rw [orDefault_eq_some_iff_view hview]
  simp only [Option.map_id, id]

/-- A field of a kind that has one written form. -/
theorem orDefault_eq_some_iff_write {α : Type} {default : α} {read : Value → Option α}
    {write : α → Value} (h : ∀ value a, read value = some a ↔ value = write a)
    {field : Option Value} {a : α} :
    orDefault default read field = some a ↔
      ∃ given : Option α, field = given.map write ∧ given.getD default = a := by
  rw [orDefault_eq_some_iff h]
  refine exists_congr fun given => and_congr_left fun _ => ?_
  constructor
  · intro hform
    cases hform with
    | none => rfl
    | some hform => exact congrArg some hform
  · rintro rfl
    apply rel_map
    intro a
    rfl

/-- Fields of one kind, which has one written form, with the same default. -/
theorem mapM_orDefault_eq_some_iff {α : Type} {default : α} {read : Value → Option α}
    {write : α → Value} (h : ∀ value a, read value = some a ↔ value = write a)
    {fields : List (Option Value)} {values : List α} :
    fields.mapM (orDefault default read) = some values ↔
      ∃ given : List (Option α), fields = given.map (Option.map write) ∧
        given.map (·.getD default) = values := by
  induction fields generalizing values with
  | nil =>
    constructor
    · intro hread
      exact ⟨[], rfl, Option.some.inj hread⟩
    · rintro ⟨given, hfields, rfl⟩
      rw [List.map_eq_nil_iff.1 hfields.symm]
      rfl
  | cons field fields ih =>
    rw [List.mapM_cons]
    constructor
    · intro hread
      obtain ⟨a, ha, hrest⟩ := Option.bind_eq_some_iff.1 hread
      obtain ⟨rest, hr, hvalues⟩ := Option.bind_eq_some_iff.1 hrest
      obtain ⟨first, rfl, rfl⟩ := (orDefault_eq_some_iff_write h).1 ha
      obtain ⟨given, rfl, rfl⟩ := ih.1 hr
      exact ⟨first :: given, rfl, Option.some.inj hvalues⟩
    · rintro ⟨given, hfields, rfl⟩
      cases given with
      | nil => nomatch hfields
      | cons first given =>
        obtain ⟨rfl, rfl⟩ := List.cons.inj hfields
        rw [(orDefault_eq_some_iff_write h).2 ⟨first, rfl, rfl⟩, ih.2 ⟨given, rfl, rfl⟩]
        rfl

end Value

end Armv4t
