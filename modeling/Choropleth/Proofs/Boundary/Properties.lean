import Choropleth.Batch.Lookup
import Choropleth.Proofs.Json.Canonical

/-!
# Properties read and written

The members of properties are divided in two: those that are known by name are read as texts, and
all others are kept. Each name belongs to one side, in reading and in writing, so that properties
are written with the members they were read from. Only known members that are `null` are left out.

* `Properties.text?`, `Properties.written`: the texts by their names, and the members written;
* `Properties.MayBeText`, `Properties.ofMembers?_eq_some_iff`: what is read;
* `Properties.readProperties_eq_ok_iff`: reading a boundary document;
* `Properties.IsTidy`, `Properties.ofMembers?_written`: tidy properties are read back;
* `Properties.isLeftOut`, `Properties.present`: the members that are left out, and those that stay;
* `Properties.written_perm`: the members written are those read, but for the ones left out;
* `properties_survive_writing`: reading and writing.
-/

namespace Choropleth
namespace Properties

variable {p : Properties} {name : String} {members : Json.Members}

/-! ### Texts by name -/

/-- The text of a known member. -/
def text? (p : Properties) : String → Option String
  | "geocode" => p.code
  | "geotype" => p.areaType
  | "ename" => p.englishName
  | "wname" => p.welshName
  | _ => none

/-- There are properties with any texts and any other members. -/
theorem exists_text?_eq (text : String → Option String) (others : Json.Members) :
    ∃ p : Properties, (∀ name ∈ knownNames, p.text? name = text name) ∧ p.others = others :=
  ⟨⟨text "geocode", text "geotype", text "ename", text "wname", others⟩,
    by simp [knownNames, text?], rfl⟩

/-- The members of properties that are written. -/
def written (p : Properties) : Json.Members :=
  knownNames.flatMap (fun name => textMember name (p.text? name)) ++ p.others

theorem toJson_eq (p : Properties) : p.toJson = .object p.written := by
  simp [toJson, written, knownNames, text?]

theorem mem_written {m : String × Json} : m ∈ p.written ↔
    m.1 ∈ knownNames ∧ (p.text? m.1).map .string = some m.2 ∨ m ∈ p.others := by
  obtain ⟨name, v⟩ := m
  rw [written, List.mem_append, List.mem_flatMap]
  refine or_congr_left ⟨?_, fun ⟨hname, htext⟩ => ⟨name, hname, ?_⟩⟩
  · rintro ⟨n, hn, hm⟩
    obtain ⟨s, hs, heq⟩ := List.mem_map.1 hm
    obtain ⟨rfl, rfl⟩ := Prod.mk.inj heq
    exact ⟨hn, by rw [Option.mem_toList.1 hs, Option.map_some]⟩
  · obtain ⟨s, hs, rfl⟩ := Option.map_eq_some_iff.1 htext
    exact List.mem_map.2 ⟨s, Option.mem_toList.2 hs, rfl⟩

/-! ### What is read -/

/-- A value that is missing, `null` or a text. -/
def MayBeText (v : Option Json) : Prop := v = none ∨ v = some .null ∨ ∃ s, v = some (.string s)

/-- Where no name comes twice, the value of a known name may be a text, which is then read. -/
theorem optionalText?_eq_some_iff (h : (members.map Prod.fst).Nodup) {t : Option String} :
    optionalText? members name = some t ↔ MayBeText (Json.lookup? name members) ∧
      (Json.lookup? name members).bind Json.text? = t := by
  rw [optionalText?, Json.valuesOf_eq_toList h]
  cases Json.lookup? name members with
  | none => simp [MayBeText]
  | some v => cases v <;> simp [MayBeText, Json.text?]

/-- **What is read**: the texts of the known names, and the other members. -/
theorem ofMembers?_eq_some_iff : ofMembers? members = some p ↔
    (∀ name ∈ knownNames, optionalText? members name = some (p.text? name)) ∧
      otherMembers members = p.others := by
  obtain ⟨code, areaType, englishName, welshName, others⟩ := p
  simp only [ofMembers?, knownNames, text?, Option.bind_eq_bind, Option.bind_eq_some_iff,
    Option.pure_def, Option.some.injEq, Properties.mk.injEq, List.forall_mem_cons,
    List.not_mem_nil, false_implies, implies_true, and_true]
  constructor
  · rintro ⟨code, hcode, areaType, hareaType, englishName, henglish, welshName, hwelsh, rfl, rfl,
      rfl, rfl, hothers⟩
    exact ⟨⟨hcode, hareaType, henglish, hwelsh⟩, hothers⟩
  · rintro ⟨⟨hcode, hareaType, henglish, hwelsh⟩, hothers⟩
    exact ⟨code, hcode, areaType, hareaType, englishName, henglish, welshName, hwelsh, rfl, rfl,
      rfl, rfl, hothers⟩

/-- The members that are not known by name. -/
def unknown (members : Json.Members) : Json.Members := members.filter fun m => m.1 ∉ knownNames

theorem otherMembers_eq (h : Json.IsCanonical (.object (unknown members))) :
    otherMembers members = unknown members :=
  Json.object.inj h

/-! ### Nested values -/

theorem optionalText?_canonicalMembers (members : Json.Members) (name : String) :
    optionalText? (Json.canonicalMembers members) name = optionalText? members name := by
  rw [optionalText?, Json.valuesOf_canonicalMembers, optionalText?]
  rcases Json.valuesOf name members with - | ⟨v, - | ⟨w, values⟩⟩
  · rfl
  · cases v <;> rfl
  · simp

theorem otherMembers_canonicalMembers (members : Json.Members) :
    otherMembers (Json.canonicalMembers members) = otherMembers members := by
  have hfilter : (Json.canonicalMembers members).filter (fun m => m.1 ∉ knownNames) =
      Json.canonicalMembers (members.filter fun m => m.1 ∉ knownNames) := by
    rw [Json.canonicalMembers_eq, Json.canonicalMembers_eq, List.filter_map]
    rfl
  rw [otherMembers, hfilter, Json.canonicalMembers_canonicalMembers, otherMembers]

/-- **What is read are the members of the canonical object.** It does not matter whether the values
under the names have been brought into canonical form before. -/
theorem ofMembers?_sortMembers {o : Json.Members}
    (ho : Json.canonical (.object members) = .object o) :
    ofMembers? (Json.sortMembers members) = ofMembers? o := by
  obtain rfl : Json.sortMembers (Json.canonicalMembers members) = o := Json.object.inj ho
  rw [Json.sortMembers_canonicalMembers]
  refine Option.ext fun p => ?_
  simp only [ofMembers?_eq_some_iff, optionalText?_canonicalMembers, otherMembers_canonicalMembers]

/-- The properties in a boundary document are those of the canonical object. -/
theorem readProperties_eq_ok_iff {o : Json.Members}
    (ho : Json.canonical (.object members) = .object o) :
    readProperties (some members) = .ok p ↔ ofMembers? o = some p := by
  rw [readProperties, Option.getD_some, ofMembers?_sortMembers ho]
  cases ofMembers? o <;> simp

/-! ### Tidy properties -/

/-- The other members are in canonical form, and none of them is known by name. -/
structure IsTidy (p : Properties) : Prop where
  canonical : Json.IsCanonical (.object p.others)
  apart : ∀ m ∈ p.others, m.1 ∉ knownNames

/-- Properties that have been read are tidy. -/
theorem isTidy_of_ofMembers? (h : ofMembers? members = some p) : p.IsTidy := by
  obtain ⟨-, hothers⟩ := ofMembers?_eq_some_iff.1 h
  rw [otherMembers, Json.canonicalMembers_eq] at hothers
  refine ⟨?_, fun m hm => ?_⟩
  · rw [← hothers, ← Json.canonicalMembers_eq]
    exact Json.isCanonical_canonical (.object (unknown members))
  · obtain ⟨m', hm', rfl⟩ := List.mem_map.1 (Json.mem_of_mem_sortMembers (hothers ▸ hm))
    exact of_decide_eq_true (List.mem_filter.1 hm').2

theorem names_texts_sublist (text : String → Option String) (names : List String) :
    ((names.flatMap fun name => textMember name (text name)).map Prod.fst).Sublist names := by
  induction names with
  | nil => exact .slnil
  | cons name names ih =>
    rw [List.flatMap_cons, List.map_append]
    cases text name with
    | none => exact ih.cons name
    | some s => exact ih.cons_cons name

namespace IsTidy

/-- No name is written twice. -/
theorem nodup_written (hp : p.IsTidy) : (p.written.map Prod.fst).Nodup := by
  have htexts := names_texts_sublist p.text? knownNames
  rw [written, List.map_append]
  refine List.Nodup.append (htexts.nodup (by decide)) hp.canonical.nodup_keys fun name ht ho => ?_
  obtain ⟨m, hm, rfl⟩ := List.mem_map.1 ho
  exact hp.apart m hm (htexts.subset ht)

theorem lookup?_written (hp : p.IsTidy) (name : String) : Json.lookup? name p.written =
    if name ∈ knownNames then (p.text? name).map .string else Json.lookup? name p.others := by
  have hothers := hp.canonical.nodup_keys
  refine Option.ext fun v => ?_
  rw [Json.lookup?_eq_get? hp.nodup_written, Json.lookup?_eq_get? hothers,
    Keyed.get?_eq_some_iff hp.nodup_written, mem_written]
  split
  · next hname =>
    have hother : (name, v) ∉ p.others := fun hm => hp.apart _ hm hname
    simp [hname, hother]
  · next hname =>
    rw [Keyed.get?_eq_some_iff hothers]
    simp [hname]

/-- A text that is written under a known name is read there. -/
theorem mayBeText_written (hp : p.IsTidy) (hname : name ∈ knownNames) :
    MayBeText (Json.lookup? name p.written) ∧
      (Json.lookup? name p.written).bind Json.text? = p.text? name := by
  rw [hp.lookup?_written, if_pos hname]
  cases p.text? name <;> simp [MayBeText, Json.text?]

theorem otherMembers_written (hp : p.IsTidy) : otherMembers p.written = p.others := by
  have hunknown : unknown p.written = p.others := by
    have htexts := names_texts_sublist p.text? knownNames
    rw [unknown, written, List.filter_append, List.filter_eq_nil_iff.2, List.nil_append,
      List.filter_eq_self.2]
    · exact fun m hm => decide_eq_true (hp.apart m hm)
    · intro m hm
      simpa using htexts.subset (List.mem_map_of_mem hm)
  rw [otherMembers_eq (hunknown ▸ hp.canonical), hunknown]

end IsTidy

/-- **Tidy properties that are written are read back.** -/
theorem ofMembers?_written (hp : p.IsTidy) : ofMembers? p.written = some p := by
  refine ofMembers?_eq_some_iff.2 ⟨fun name hname => ?_, hp.otherMembers_written⟩
  exact (optionalText?_eq_some_iff hp.nodup_written).2 (hp.mayBeText_written hname)

theorem ofJson?_object : ofJson? (.object members) = some p ↔
    (Json.object members).isSound = true ∧ ofMembers? members = some p := by
  simp [ofJson?]

/-! ### Members left out -/

/-- The member is known by name, and it is `null`. -/
def isLeftOut : String × Json → Bool
  | (name, .null) => name ∈ knownNames
  | _ => false

/-- The members that are not left out. -/
def present (members : Json.Members) : Json.Members := members.filter fun m => !isLeftOut m

variable {o : Json.Members}

theorem others_eq (ho : Json.IsCanonical (.object o)) (h : ofMembers? o = some p) :
    p.others = unknown o := by
  rw [← (ofMembers?_eq_some_iff.1 h).2, otherMembers_eq (ho.filter _)]

/-- The members that are not left out have the names and the values that are written. -/
theorem lookup?_present (ho : Json.IsCanonical (.object o)) (h : ofMembers? o = some p)
    (name : String) : Json.lookup? name (present o) = Json.lookup? name p.written := by
  have hnodup := ho.nodup_keys
  rw [(isTidy_of_ofMembers? h).lookup?_written, others_eq ho h, present, unknown,
    Json.lookup?_eq_get? (ho.filter _).nodup_keys, Json.lookup?_eq_get? (ho.filter _).nodup_keys,
    Keyed.get?_filter hnodup, Keyed.get?_filter hnodup, ← Json.lookup?_eq_get? hnodup]
  split
  · next hname =>
    obtain ⟨htext, hread⟩ :=
      (optionalText?_eq_some_iff hnodup).1 ((ofMembers?_eq_some_iff.1 h).1 name hname)
    rw [← hread]
    rcases htext with hlookup | hlookup | ⟨s, hlookup⟩ <;>
      simp [hlookup, Json.text?, isLeftOut, hname]
  · next hname =>
    have hleft (v : Json) : isLeftOut (name, v) = false := by
      cases v <;> simp [isLeftOut, hname]
    simp [hname, hleft]

/-- **The members that are written are those that were read**, but for the ones left out. -/
theorem written_perm (ho : Json.IsCanonical (.object o)) (h : ofMembers? o = some p) :
    p.written.Perm (present o) := by
  have hwritten := (isTidy_of_ofMembers? h).nodup_written
  have hpresent : ((present o).map Prod.fst).Nodup := (ho.filter _).nodup_keys
  refine Keyed.perm_of_get?_eq hwritten hpresent fun name => ?_
  rw [← Json.lookup?_eq_get? hwritten, ← Json.lookup?_eq_get? hpresent, lookup?_present ho h]

/-- Whether a member is left out does not matter to what is read. -/
theorem ofMembers?_present (ho : Json.IsCanonical (.object o)) (h : ofMembers? o = some p) :
    ofMembers? (present o) = some p := by
  have hpresent : ((present o).map Prod.fst).Nodup := (ho.filter _).nodup_keys
  refine ofMembers?_eq_some_iff.2 ⟨fun name hname => ?_, ?_⟩
  · rw [optionalText?_eq_some_iff hpresent, lookup?_present ho h]
    exact (isTidy_of_ofMembers? h).mayBeText_written hname
  · have hunknown : unknown (present o) = unknown o := by
      rw [unknown, present, List.filter_filter]
      refine List.filter_congr fun m _ => ?_
      obtain ⟨name, v⟩ := m
      cases v <;> simp [isLeftOut]
    rw [otherMembers_eq (hunknown ▸ ho.filter _), hunknown, others_eq ho h]

theorem canonical_written (ho : Json.IsCanonical (.object o)) (h : ofMembers? o = some p) :
    Json.canonical (.object p.written) = .object (present o) := by
  have hperm := written_perm ho h
  have hpresent : Json.IsCanonical (.object (present o)) := ho.filter _
  have hvalues : ∀ m ∈ p.written, Json.IsCanonical m.2 := fun m hm =>
    (Json.isCanonical_object.1 hpresent).2 m (hperm.mem_iff.1 hm)
  rw [Json.canonical, Json.canonicalMembers_eq_self hvalues,
    Json.sortMembers_eq_of_perm hperm hpresent.inOrder]

theorem isSound_written (ho : Json.IsCanonical (.object o)) (h : ofMembers? o = some p)
    (hs : (Json.object o).isSound = true) : (Json.object p.written).isSound = true :=
  Json.isSound_object.2 fun m hm => Json.isSound_object.1 hs m
    (List.mem_of_mem_filter ((written_perm ho h).mem_iff.1 hm))

/-- Members are read as properties if each of the known ones may be a text. -/
theorem exists_ofMembers?_iff (h : (o.map Prod.fst).Nodup) :
    (∃ p, ofMembers? o = some p) ↔ ∀ name ∈ knownNames, MayBeText (Json.lookup? name o) := by
  constructor
  · rintro ⟨p, hp⟩ name hname
    exact ((optionalText?_eq_some_iff h).1 ((ofMembers?_eq_some_iff.1 hp).1 name hname)).1
  · intro hall
    obtain ⟨p, htext, hothers⟩ :=
      exists_text?_eq (fun name => (Json.lookup? name o).bind Json.text?) (otherMembers o)
    exact ⟨p, ofMembers?_eq_some_iff.2 ⟨fun name hname =>
      (optionalText?_eq_some_iff h).2 ⟨hall name hname, (htext name hname).symm⟩, hothers.symm⟩⟩

/-- The text of a known name is what stands under it. -/
theorem text?_eq (h : (o.map Prod.fst).Nodup) (hp : ofMembers? o = some p)
    (hname : name ∈ knownNames) : p.text? name = (Json.lookup? name o).bind Json.text? :=
  ((optionalText?_eq_some_iff h).1 ((ofMembers?_eq_some_iff.1 hp).1 name hname)).2.symm

end Properties

/-! ### Reading and writing -/

open Properties

/-- **Properties survive reading and writing.** An object is read as properties just if each of its
known members is a text, `null` or missing. The known texts and all other members are then kept; the
members of the object, less the known ones that are `null`, are written and no others; and what is
written is read as the same properties again, as it stands or sorted by name. -/
theorem properties_survive_writing {o : Json.Members} (ho : Json.IsCanonical (.object o)) :
    ((∃ p, ofMembers? o = some p) ↔ ∀ name ∈ knownNames, MayBeText (Json.lookup? name o)) ∧
    ∀ p, ofMembers? o = some p →
      (∀ name ∈ knownNames, p.text? name = (Json.lookup? name o).bind Json.text?) ∧
      p.others = unknown o ∧ p.toJson = .object p.written ∧ p.written.Perm (present o) ∧
      Json.canonical p.toJson = .object (present o) ∧
      ofMembers? p.written = some p ∧ ofMembers? (present o) = some p ∧
      (ofJson? (.object o) = some p → ofJson? p.toJson = some p) := by
  refine ⟨exists_ofMembers?_iff ho.nodup_keys, fun p hp => ?_⟩
  have hread : ofMembers? p.written = some p := ofMembers?_written (isTidy_of_ofMembers? hp)
  rw [toJson_eq]
  refine ⟨fun name hname => text?_eq ho.nodup_keys hp hname, others_eq ho hp, rfl,
    written_perm ho hp, canonical_written ho hp, hread, ofMembers?_present ho hp, fun hjson => ?_⟩
  obtain ⟨hsound, -⟩ := ofJson?_object.1 hjson
  exact ofJson?_object.2 ⟨isSound_written ho hp hsound, hread⟩

theorem properties_survive_writing_of_nested :
    ∃ p, ofMembers? [("ename", .null), ("geocode", .string "E01000001"),
        ("objectid", .array [.int 1, .object [("geocode", .null)]])] = some p ∧
      Json.canonical p.toJson = .object [("geocode", .string "E01000001"),
        ("objectid", .array [.int 1, .object [("geocode", .null)]])] ∧
      ofMembers? p.written = some p := by
  obtain ⟨hread, hwritten⟩ := properties_survive_writing
    (o := [("ename", .null), ("geocode", .string "E01000001"),
      ("objectid", .array [.int 1, .object [("geocode", .null)]])]) rfl
  obtain ⟨p, hp⟩ := hread.2 (by simp [knownNames, MayBeText, Json.lookup?])
  obtain ⟨-, -, -, -, hcanonical, hagain, -⟩ := hwritten p hp
  exact ⟨p, hp, hcanonical, hagain⟩

end Choropleth
