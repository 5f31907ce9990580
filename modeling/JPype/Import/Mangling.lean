import JPype.Foundation.Joining
import JPype.Import.Packages
import Mathlib.Data.List.DropRight
import Mathlib.Data.List.Perm.Basic
import Mathlib.Data.Set.Function

/-!
# Names of Java in Python

A Java name that is a keyword of Python gets an underscore at its end, and loses it again on the way
back. This is written down in `JPypeKeywords`, in `imports.py` and in `_pykeywords.py`. A name that
is a keyword and an underscore is not changed, however, so that it comes back as the keyword; and
where a class has both as members, `_jclassPre` keeps one of them only. Apart from that, names are
recovered and members kept (`mangling_iff`).
-/

namespace JPype.Keywords

open scoped Foundation.Membership

abbrev Name := List Char

variable (keywords : List Name)

/-! ### `JPypeKeywords` -/

/-- `JPypeKeywords.wrap` -/
def wrap (name : Name) : Name :=
  if name ∈ keywords then name ++ ['_'] else name

/-- `JPypeKeywords.unwrap` -/
def unwrap (name : Name) : Name :=
  if ¬['_'] <:+ name then name
  else if name.dropLast ∈ keywords then name.dropLast
  else name

/-- `s.split("\\.")`: without the empty parts at the end, unless there is nothing to split. -/
def splitDot (s : Name) : List Name :=
  if '.' ∈ s then (s.splitOn '.').rdropWhile List.isEmpty else [s]

/-- `JPypeKeywords.safepkg` -/
def safepkg (s : Name) : Name :=
  if '_' ∉ s then s else ['.'].intercalate ((splitDot s).map (unwrap keywords))

/-! ### Python -/

/-- `_keywordWrap` of `imports.py` -/
def keywordWrap (name : Name) : Name :=
  if name ∈ keywords then name ++ ['_'] else name

/-- `_keywordUnwrap` of `imports.py` -/
def keywordUnwrap (name : Name) : Name :=
  if ¬['_'] <:+ name then name
  else if name.dropLast ∈ keywords then name.dropLast
  else name

/-- `unwrap` of `imports.py` -/
def unwrapPath (name : Name) : Name :=
  if '_' ∉ name then name
  else ['.'].intercalate ((name.splitOn '.').map (keywordUnwrap keywords))

/-- A name of the form `__x__`. -/
def IsDunder (s : Name) : Prop :=
  ['_', '_'] <+: s ∧ ['_', '_'] <:+ s ∧ 4 ≤ s.length

instance (s : Name) : Decidable (IsDunder s) := inferInstanceAs (Decidable (_ ∧ _))

/-- `pysafe` of `_pykeywords.py` -/
def pysafe (s : Name) : Option Name :=
  if IsDunder s then none
  else if s ∈ keywords then some (s ++ ['_'])
  else some s

/-! ### The members of a class -/

variable {α : Type}

/-- The items of a dictionary. -/
abbrev Items (α : Type) := List (Name × α)

def Items.keys (items : Items α) : List Name :=
  items.map Prod.fst

/-- `del members[k]`, or a `KeyError`. -/
def delItem (members : Items α) (k : Name) : Option (Items α) :=
  if k ∈ members.keys then some (members.filter fun item ↦ item.1 ≠ k) else none

/-- `members[k] = v` -/
def setItem (members : Items α) (k : Name) (v : α) : Items α :=
  if k ∈ members.keys then members.map fun item ↦ if item.1 = k then (k, v) else item
  else members ++ [(k, v)]

/-- One turn of the loop of `_jclassPre`. -/
def renameMember (members : Items α) (item : Name × α) : Option (Items α) :=
  if pysafe keywords item.1 = some item.1 then some members
  else
    match pysafe keywords item.1 with
    | none => delItem members item.1
    | some k2 =>
      (delItem members item.1).map fun members ↦
        if k2 = [] then members else setItem members k2 item.2

/-- The loop of `_jclassPre`, over a copy of the items. -/
def renameMembers : List (Name × α) → Items α → Option (Items α)
  | [], members => some members
  | item :: m, members =>
    match renameMember keywords members item with
    | none => none
    | some members => renameMembers m members

/-- `_jclassPre`, before the customizers. -/
def jclassPre (members : Items α) : Option (Items α) :=
  renameMembers keywords members members

/-! ### Names that come back -/

/-- A component of a dotted name. -/
structure IsComponent (name : Name) : Prop where
  ne_nil : name ≠ []
  dot : '.' ∉ name

/-- The names of a scope are recovered, and so are the dotted names that are made from them; Java
and Python do the same. -/
structure Reversible (scope : Set Name) : Prop where
  unwrap_wrap : ∀ name ∈ scope, unwrap keywords (wrap keywords name) = name
  wrap_injOn : scope.InjOn (wrap keywords)
  safepkg_wrap : ∀ parts, parts ≠ [] → (∀ part ∈ parts, part ∈ scope ∧ IsComponent part) →
    safepkg keywords (['.'].intercalate (parts.map (wrap keywords))) = ['.'].intercalate parts
  dotted_inj : ∀ parts other, parts ≠ [] → other ≠ [] →
    (∀ part ∈ parts, part ∈ scope ∧ IsComponent part) →
    (∀ part ∈ other, part ∈ scope ∧ IsComponent part) →
    ['.'].intercalate (parts.map (wrap keywords)) =
      ['.'].intercalate (other.map (wrap keywords)) → parts = other
  keywordWrap_eq : keywordWrap keywords = wrap keywords
  keywordUnwrap_eq : keywordUnwrap keywords = unwrap keywords
  unwrapPath_eq : ∀ parts, parts ≠ [] → (∀ part ∈ parts, IsComponent part) →
    unwrapPath keywords (['.'].intercalate parts) = safepkg keywords (['.'].intercalate parts)
  pysafe_eq : ∀ name, ¬IsDunder name → pysafe keywords name = some (wrap keywords name)

theorem pysafe_of_not_isDunder {name : Name} (h : ¬IsDunder name) :
    pysafe keywords name = some (wrap keywords name) := by
  rw [pysafe, if_neg h, wrap]
  split <;> rfl

variable {keywords}

theorem unwrap_concat {name : Name} (h : name ∈ keywords) :
    unwrap keywords (name ++ ['_']) = name := by
  rw [unwrap, if_neg (not_not_intro (List.suffix_append _ _)), List.dropLast_concat, if_pos h]

theorem unwrap_eq_self {name : Name} (h : ∀ k ∈ keywords, name ≠ k ++ ['_']) :
    unwrap keywords name = name := by
  rw [unwrap]
  split
  · rfl
  · next hsuffix =>
    obtain ⟨k, rfl⟩ := not_not.mp hsuffix
    rw [List.dropLast_concat, if_neg fun hk ↦ h k hk rfl]

/-- A name is recovered, unless it is a keyword and an underscore itself. -/
theorem unwrap_wrap {name : Name} (h : ∀ k ∈ keywords, name = k ++ ['_'] → name ∈ keywords) :
    unwrap keywords (wrap keywords name) = name := by
  rw [wrap]
  split
  · next hname => exact unwrap_concat hname
  · next hname => exact unwrap_eq_self fun k hk heq ↦ hname (h k hk heq)

theorem IsComponent.wrap {name : Name} (h : IsComponent name) :
    IsComponent (wrap keywords name) := by
  rw [Keywords.wrap]
  split
  · exact ⟨List.append_ne_nil_of_left_ne_nil h.ne_nil _, fun hmem ↦
      (List.mem_append.mp hmem).elim h.dot (by decide)⟩
  · exact h

/-! ### Dotted names -/

theorem splitOn_dotted {parts : List Name} (hne : parts ≠ [])
    (h : ∀ part ∈ parts, IsComponent part) :
    (['.'].intercalate parts).splitOn '.' = parts :=
  List.splitOn_intercalate '.' (fun part hpart ↦ (h part hpart).dot) hne

/-- Nothing is left out where no part is empty. -/
theorem splitDot_dotted {parts : List Name} (hne : parts ≠ [])
    (h : ∀ part ∈ parts, IsComponent part) : splitDot (['.'].intercalate parts) = parts :=
  Foundation.rdropWhile_splitOn_intercalate hne
    fun part hpart ↦ ⟨(h part hpart).dot, (h part hpart).ne_nil⟩

theorem unwrap_of_notMem {name : Name} (h : '_' ∉ name) : unwrap keywords name = name :=
  if_pos fun hsuffix ↦ h (hsuffix.subset (List.mem_singleton_self _))

theorem map_unwrap_of_notMem {parts : List Name} (h : '_' ∉ ['.'].intercalate parts) :
    parts.map (unwrap keywords) = parts := by
  have hall : ∀ c ∈ ['.'].intercalate parts, c ≠ '_' := fun c hc heq ↦ h (heq ▸ hc)
  rw [Foundation.forall_mem_intercalate (by decide)] at hall
  exact (List.map_congr_left fun part hpart ↦ unwrap_of_notMem fun hmem ↦
    hall part hpart _ hmem rfl).trans (List.map_id parts)

/-- Dotted names are unwrapped part by part. -/
theorem safepkg_dotted {parts : List Name} (hne : parts ≠ [])
    (h : ∀ part ∈ parts, IsComponent part) : safepkg keywords (['.'].intercalate parts) =
      ['.'].intercalate (parts.map (unwrap keywords)) := by
  rw [safepkg, splitDot_dotted hne h]
  split
  · next hnone => rw [map_unwrap_of_notMem hnone]
  · rfl

theorem unwrapPath_dotted {parts : List Name} (hne : parts ≠ [])
    (h : ∀ part ∈ parts, IsComponent part) : unwrapPath keywords (['.'].intercalate parts) =
      ['.'].intercalate (parts.map (unwrap keywords)) := by
  rw [unwrapPath, splitOn_dotted hne h]
  split
  · next hnone => rw [map_unwrap_of_notMem hnone]
  · rfl

/-- The names of a scope are recovered if none of them is a keyword and an underscore, unless that
is a keyword, too. -/
theorem reversible_iff {scope : Set Name} : Reversible keywords scope ↔
    ∀ k ∈ keywords, k ++ ['_'] ∈ scope → k ++ ['_'] ∈ keywords := by
  constructor
  · intro h k hk hscope
    by_contra hnot
    have hback := h.unwrap_wrap _ hscope
    rw [wrap, if_neg hnot, unwrap_concat hk] at hback
    exact List.cons_ne_nil _ _ (List.self_eq_append_right.mp hback)
  · intro h
    have hback : ∀ name ∈ scope, unwrap keywords (wrap keywords name) = name :=
      fun name hname ↦ unwrap_wrap fun k hk heq ↦ heq ▸ h k hk (heq ▸ hname)
    have hcomponents {parts : List Name}
        (hparts : ∀ part ∈ parts, part ∈ scope ∧ IsComponent part) :
        ∀ part ∈ parts.map (wrap keywords), IsComponent part := by
      intro part hpart
      obtain ⟨name, hname, rfl⟩ := List.mem_map.mp hpart
      exact (hparts name hname).2.wrap
    have hmap {parts : List Name} (hparts : ∀ part ∈ parts, part ∈ scope ∧ IsComponent part) :
        (parts.map (wrap keywords)).map (unwrap keywords) = parts := by
      rw [List.map_map]
      exact (List.map_congr_left fun name hname ↦ hback name (hparts name hname).1).trans
        (List.map_id parts)
    have hdotted {parts : List Name} (hne : parts ≠ [])
        (hparts : ∀ part ∈ parts, part ∈ scope ∧ IsComponent part) :
        safepkg keywords (['.'].intercalate (parts.map (wrap keywords))) =
          ['.'].intercalate parts := by
      rw [safepkg_dotted (List.map_eq_nil_iff.not.mpr hne) (hcomponents hparts), hmap hparts]
    refine ⟨hback, Set.LeftInvOn.injOn hback, fun parts ↦ hdotted, ?_, rfl, rfl, ?_, ?_⟩
    · intro parts other hne hne' hparts hother heq
      have hjoined : ['.'].intercalate parts = ['.'].intercalate other := by
        rw [← hdotted hne hparts, heq, hdotted hne' hother]
      rw [← splitOn_dotted hne fun part hpart ↦ (hparts part hpart).2, hjoined,
        splitOn_dotted hne' fun part hpart ↦ (hother part hpart).2]
    · intro parts hne hparts
      rw [unwrapPath_dotted hne hparts, safepkg_dotted hne hparts]
    · exact fun name ↦ pysafe_of_not_isDunder keywords

/-! ### Members that are kept -/

/-- The members of a class, by their names in Java. -/
structure MemberTable (α : Type) where
  items : Items α
  nodup : items.keys.Nodup

variable (keywords) in
/-- Every member but those named `__x__` is kept under its own name, in whatever order the table
is. -/
structure Kept (table : MemberTable α) : Prop where
  distinct : {name | name ∈ table.items.keys ∧ ¬IsDunder name}.InjOn (pysafe keywords)
  kept : ∃ result : Items α, (∀ order, order.Perm table.items →
      ∃ members, jclassPre keywords order = some members ∧ members.Perm result) ∧
    ∀ item ∈ table.items, ¬IsDunder item.1 → (wrap keywords item.1, item.2) ∈ result

variable (keywords) in
/-- What a class has instead of its Java members. -/
def renamed (items : Items α) : Items α :=
  items.filterMap fun item ↦ (pysafe keywords item.1).map (·, item.2)

variable (keywords) in
/-- No member is named like a keyword while another one has this name with an underscore. -/
def NoClash (items : Items α) : Prop :=
  ∀ k ∈ items.keys, k ∈ keywords → ¬IsDunder k → k ++ ['_'] ∉ items.keys

theorem pysafe_eq_some_iff {k name : Name} : pysafe keywords k = some name ↔
    ¬IsDunder k ∧ (k ∈ keywords ∧ name = k ++ ['_'] ∨ k ∉ keywords ∧ name = k) := by
  rw [pysafe]
  split
  · next hdunder => simp [hdunder]
  · next hdunder =>
    split
    · next hk => simp [hdunder, hk, eq_comm]
    · next hk => simp [hdunder, hk, eq_comm]

theorem mem_keys {items : Items α} {item : Name × α} (h : item ∈ items) : item.1 ∈ items.keys :=
  List.mem_map_of_mem h

/-- Without a clash no member gets a name that another one has or gets. -/
theorem NoClash.pysafe_ne {items : Items α} (h : NoClash keywords items) {k other name : Name}
    (hk : k ∈ items.keys) (hother : other ∈ items.keys) (hne : k ≠ other)
    (hname : pysafe keywords k = some name) :
    name ≠ other ∧ pysafe keywords other ≠ some name := by
  obtain ⟨hdunder, ⟨hkeyword, rfl⟩ | ⟨hkeyword, rfl⟩⟩ := pysafe_eq_some_iff.mp hname
  · refine ⟨fun heq ↦ h k hk hkeyword hdunder (heq ▸ hother), fun hsafe ↦ ?_⟩
    obtain ⟨-, ⟨-, heq⟩ | ⟨-, heq⟩⟩ := pysafe_eq_some_iff.mp hsafe
    · exact hne (List.append_cancel_right heq)
    · exact h k hk hkeyword hdunder (heq ▸ hother)
  · refine ⟨hne, fun hsafe ↦ ?_⟩
    obtain ⟨hdunder', ⟨hkeyword', heq⟩ | ⟨-, heq⟩⟩ := pysafe_eq_some_iff.mp hsafe
    · exact h other hother hkeyword' hdunder' (heq ▸ hk)
    · exact hne heq

theorem delItem_perm {members rest : Items α} {k : Name} {v : α}
    (h : members.Perm ((k, v) :: rest)) (hk : k ∉ rest.keys) :
    ∃ members', delItem members k = some members' ∧ members'.Perm rest := by
  have hmem : k ∈ members.keys := mem_keys (h.mem_iff.mpr List.mem_cons_self)
  refine ⟨_, if_pos hmem, (h.filter _).trans ?_⟩
  have hrest : rest.filter (fun item ↦ item.1 ≠ k) = rest :=
    List.filter_eq_self.mpr fun item hitem ↦
      decide_eq_true (ne_of_mem_of_not_mem (mem_keys hitem) hk)
  rw [List.filter_cons_of_neg (by simp), hrest]

theorem setItem_perm {members rest : Items α} {k : Name} (v : α) (h : members.Perm rest)
    (hk : k ∉ rest.keys) : (setItem members k v).Perm ((k, v) :: rest) := by
  have hmem : k ∉ members.keys := fun hmem ↦ hk ((h.map Prod.fst).mem_iff.mp hmem)
  rw [setItem, if_neg hmem]
  exact (List.perm_append_singleton _ _).trans (h.cons _)

theorem mem_keys_renamed {items : Items α} {name : Name}
    (h : name ∈ (renamed keywords items).keys) :
    ∃ k ∈ items.keys, pysafe keywords k = some name := by
  obtain ⟨_, hitem, rfl⟩ := List.mem_map.mp h
  obtain ⟨item, hmem, heq⟩ := List.mem_filterMap.mp hitem
  obtain ⟨name, hname, rfl⟩ := Option.map_eq_some_iff.mp heq
  exact ⟨item.1, mem_keys hmem, hname⟩

theorem keys_append (items more : Items α) : Items.keys (items ++ more) = items.keys ++ more.keys :=
  List.map_append

theorem renamed_append (items more : Items α) :
    renamed keywords (items ++ more) = renamed keywords items ++ renamed keywords more :=
  List.filterMap_append

theorem renamed_singleton (k : Name) (v : α) :
    renamed keywords [(k, v)] = ((pysafe keywords k).map (·, v)).toList := by
  rw [renamed, List.filterMap_cons, List.filterMap_nil]
  cases pysafe keywords k <;> rfl

/-- One turn of the loop replaces a member by what the class has instead. -/
theorem renameMember_perm {done rest members : Items α} {item : Name × α}
    (hclash : NoClash keywords (done ++ item :: rest))
    (hnodup : (Items.keys (done ++ item :: rest)).Nodup)
    (h : members.Perm (renamed keywords done ++ item :: rest)) :
    ∃ members', renameMember keywords members item = some members' ∧
      members'.Perm (renamed keywords (done ++ [item]) ++ rest) := by
  obtain ⟨k, v⟩ := item
  rw [keys_append] at hnodup
  obtain ⟨-, hrest, hdisjoint⟩ := List.nodup_append.mp hnodup
  have hkeys : k ∈ Items.keys (done ++ (k, v) :: rest) := by
    rw [keys_append]
    exact List.mem_append_right _ List.mem_cons_self
  have hdone {a name : Name} (ha : a ∈ done.keys) (hname : pysafe keywords a = some name) :
      name ≠ k ∧ pysafe keywords k ≠ some name := by
    refine hclash.pysafe_ne ?_ hkeys (hdisjoint a ha k List.mem_cons_self) hname
    rw [keys_append]
    exact List.mem_append_left _ ha
  have hleft : k ∉ Items.keys (renamed keywords done ++ rest) := by
    rw [keys_append]
    rintro hmem
    rcases List.mem_append.mp hmem with hmem | hmem
    · obtain ⟨a, ha, hname⟩ := mem_keys_renamed hmem
      exact (hdone ha hname).1 rfl
    · exact (List.nodup_cons.mp hrest).1 hmem
  -- The member goes out under its own name, and in under the safe one, which is free.
  have hdel := delItem_perm (h.trans List.perm_middle) hleft
  rw [renameMember, renamed_append, List.append_assoc, renamed_singleton]
  split
  · next hsafe =>
    refine ⟨members, rfl, ?_⟩
    rw [show pysafe keywords k = some k from hsafe]
    exact h
  · next hsafe =>
    obtain ⟨members', hmembers', hperm⟩ := hdel
    cases hpysafe : pysafe keywords k with
    | none =>
      exact ⟨members', hmembers', hperm⟩
    | some name =>
      have hne : name ≠ k := fun heq ↦ hsafe (heq ▸ hpysafe)
      have hname : name ∉ Items.keys (renamed keywords done ++ rest) := by
        rw [keys_append]
        intro hmem
        rcases List.mem_append.mp hmem with hmem | hmem
        · obtain ⟨a, ha, haname⟩ := mem_keys_renamed hmem
          exact (hdone ha haname).2 hpysafe
        · refine (hclash.pysafe_ne hkeys ?_ hne.symm hpysafe).1 rfl
          rw [keys_append]
          exact List.mem_append_right _ (List.mem_cons_of_mem _ hmem)
      have hnonempty : name ≠ [] := by
        obtain ⟨-, ⟨-, rfl⟩ | ⟨-, rfl⟩⟩ := pysafe_eq_some_iff.mp hpysafe
        · exact List.append_ne_nil_of_right_ne_nil _ (List.cons_ne_nil _ _)
        · exact absurd rfl hne
      simp only [hmembers', Option.map_some, if_neg hnonempty]
      exact ⟨_, rfl, (setItem_perm v hperm hname).trans List.perm_middle.symm⟩

/-- The loop replaces all members. -/
theorem renameMembers_perm {m done members : Items α} (hclash : NoClash keywords (done ++ m))
    (hnodup : (Items.keys (done ++ m)).Nodup) (h : members.Perm (renamed keywords done ++ m)) :
    ∃ members', renameMembers keywords m members = some members' ∧
      members'.Perm (renamed keywords (done ++ m)) := by
  induction m generalizing done members with
  | nil =>
    rw [List.append_nil] at h ⊢
    exact ⟨members, rfl, h⟩
  | cons item m ih =>
    obtain ⟨members', hmembers', hperm⟩ := renameMember_perm hclash hnodup h
    rw [List.append_cons] at hclash hnodup ⊢
    rw [renameMembers, hmembers']
    exact ih hclash hnodup hperm

/-! ### Members that are lost -/

theorem keys_delItem {members members' : Items α} {k : Name}
    (h : delItem members k = some members') {name : Name} :
    name ∈ members'.keys ↔ name ∈ members.keys ∧ name ≠ k := by
  rw [delItem] at h
  split at h
  · obtain rfl := Option.some.inj h
    simp only [Items.keys, List.mem_map, List.mem_filter, decide_eq_true_iff]
    constructor
    · rintro ⟨item, ⟨hitem, hne⟩, rfl⟩
      exact ⟨⟨item, hitem, rfl⟩, hne⟩
    · rintro ⟨⟨item, hitem, rfl⟩, hne⟩
      exact ⟨item, ⟨hitem, hne⟩, rfl⟩
  · cases h

theorem mem_keys_setItem {members : Items α} {k name : Name} {v : α}
    (h : name ∈ (setItem members k v).keys) : name ∈ members.keys ∨ name = k := by
  rw [setItem] at h
  split at h
  · obtain ⟨_, hitem, rfl⟩ := List.mem_map.mp h
    obtain ⟨item, hmem, rfl⟩ := List.mem_map.mp hitem
    split
    · exact .inr rfl
    · exact .inl (mem_keys hmem)
  · rw [keys_append] at h
    exact (List.mem_append.mp h).imp_right List.mem_singleton.mp

/-- A turn of the loop deletes the name that it is about, unless it stays as it is, and makes no
name but that of Python. -/
theorem mem_keys_renameMember {members members' : Items α} {k name : Name} {v : α}
    (h : renameMember keywords members (k, v) = some members') (hmem : name ∈ members'.keys) :
    pysafe keywords k = some name ∨ name ∈ members.keys ∧ name ≠ k := by
  rw [renameMember] at h
  split at h
  · next hsafe =>
    obtain rfl := Option.some.inj h
    by_cases heq : name = k
    · exact .inl (heq ▸ hsafe)
    · exact .inr ⟨hmem, heq⟩
  · split at h
    · exact .inr ((keys_delItem h).mp hmem)
    · next k2 hk2 =>
      obtain ⟨deleted, hdeleted, rfl⟩ := Option.map_eq_some_iff.mp h
      split at hmem
      · exact .inr ((keys_delItem hdeleted).mp hmem)
      · rcases mem_keys_setItem hmem with hmem | rfl
        · exact .inr ((keys_delItem hdeleted).mp hmem)
        · exact .inl hk2

theorem notMem_keys_renameMembers {m members members' : Items α} {name : Name}
    (hsafe : ∀ item ∈ m, pysafe keywords item.1 ≠ some name) (hmem : name ∉ members.keys)
    (h : renameMembers keywords m members = some members') : name ∉ members'.keys := by
  induction m generalizing members with
  | nil => exact Option.some.inj h ▸ hmem
  | cons item m ih =>
    obtain ⟨hitem, hm⟩ := List.forall_mem_cons.mp hsafe
    rw [renameMembers] at h
    split at h
    · cases h
    · next turned hnext =>
      exact ih hm (fun hnew ↦ (mem_keys_renameMember hnext hnew).elim hitem fun h ↦ hmem h.1) h

/-- A keyword that comes first takes a name that is deleted in the next turn. -/
theorem notMem_keys_jclassPre {k : Name} {v v' : α} {rest members : Items α}
    (hnodup : (Items.keys ((k, v) :: (k ++ ['_'], v') :: rest)).Nodup)
    (hsafe : pysafe keywords (k ++ ['_']) ≠ some (k ++ ['_']))
    (h : jclassPre keywords ((k, v) :: (k ++ ['_'], v') :: rest) = some members) :
    k ++ ['_'] ∉ members.keys := by
  obtain ⟨hk, hrest⟩ := List.nodup_cons.mp hnodup
  rw [jclassPre, renameMembers] at h
  split at h
  · cases h
  · rw [renameMembers] at h
    split at h
    · cases h
    · next turned hnext =>
      refine notMem_keys_renameMembers (fun item hitem heq ↦ ?_) (fun hmem ↦ ?_) h
      · have hkey : item.1 ∈ Items.keys rest := mem_keys hitem
        obtain ⟨-, ⟨-, hname⟩ | ⟨-, hname⟩⟩ := pysafe_eq_some_iff.mp heq
        · rw [List.append_cancel_right hname] at hk
          exact hk (List.mem_cons_of_mem _ hkey)
        · rw [hname] at hrest
          exact (List.nodup_cons.mp hrest).1 hkey
      · exact (mem_keys_renameMember hnext hmem).elim hsafe fun hne ↦ hne.2 rfl

theorem exists_perm_cons {items : Items α} {k : Name} (h : k ∈ items.keys) :
    ∃ v rest, items.Perm ((k, v) :: rest) := by
  obtain ⟨⟨_, v⟩, hitem, rfl⟩ := List.mem_map.mp h
  obtain ⟨before, after, rfl⟩ := List.append_of_mem hitem
  exact ⟨v, before ++ after, List.perm_middle⟩

theorem nodup_keys_of_perm {items order : Items α} (h : order.Perm items)
    (hnodup : items.keys.Nodup) : order.keys.Nodup :=
  (h.map Prod.fst).nodup_iff.mpr hnodup

theorem kept_iff {table : MemberTable α} : Kept keywords table ↔ NoClash keywords table.items := by
  constructor
  · intro h k hk hkeyword hdunder hmem
    have hsafe : pysafe keywords k = some (k ++ ['_']) :=
      pysafe_eq_some_iff.mpr ⟨hdunder, .inl ⟨hkeyword, rfl⟩⟩
    have hne : k ≠ k ++ ['_'] := fun heq ↦
      List.cons_ne_nil _ _ (List.self_eq_append_right.mp heq)
    by_cases hself : pysafe keywords (k ++ ['_']) = some (k ++ ['_'])
    · exact hne (h.distinct ⟨hk, hdunder⟩ ⟨hmem, (pysafe_eq_some_iff.mp hself).1⟩
        (hsafe.trans hself.symm))
    · obtain ⟨result, hresult, hkept⟩ := h.kept
      obtain ⟨v, rest, hperm⟩ := exists_perm_cons hk
      have hrest : k ++ ['_'] ∈ Items.keys rest :=
        (List.mem_cons.mp ((hperm.map Prod.fst).mem_iff.mp hmem)).resolve_left hne.symm
      obtain ⟨v', rest, hperm'⟩ := exists_perm_cons hrest
      have horder := (hperm.trans (hperm'.cons _)).symm
      obtain ⟨members, hmembers, heq⟩ := hresult _ horder
      have hlost := notMem_keys_jclassPre (nodup_keys_of_perm horder table.nodup) hself hmembers
      have hitem := hkept (k, v) (hperm.mem_iff.mpr List.mem_cons_self) hdunder
      rw [show wrap keywords k = k ++ ['_'] from if_pos hkeyword] at hitem
      exact hlost (mem_keys (heq.mem_iff.mpr hitem))
  · intro h
    constructor
    · rintro a ⟨ha, hadunder⟩ b ⟨hb, -⟩ heq
      by_contra hne
      have hname := pysafe_of_not_isDunder keywords hadunder
      exact (h.pysafe_ne ha hb hne hname).2 (heq ▸ hname)
    · refine ⟨renamed keywords table.items, fun order horder ↦ ?_, fun item hitem hdunder ↦ ?_⟩
      · have hclash : NoClash keywords ([] ++ order) := fun k hk hkeyword hdunder hmem ↦
          h k ((horder.map Prod.fst).mem_iff.mp hk) hkeyword hdunder
            ((horder.map Prod.fst).mem_iff.mp hmem)
        obtain ⟨members, hmembers, hperm⟩ := renameMembers_perm hclash
          (nodup_keys_of_perm horder table.nodup) (.refl order)
        exact ⟨members, hmembers, hperm.trans (horder.filterMap _)⟩
      · refine List.mem_filterMap.mpr ⟨item, hitem, ?_⟩
        rw [pysafe_of_not_isDunder keywords hdunder]
        rfl

/-- The names of a scope come back and the members of a class are kept if and only if no name of the
scope is a keyword and an underscore, and no member is a keyword while another one has this name
with an underscore. -/
theorem mangling_iff (scope : Set Name) (table : MemberTable α) :
    Reversible keywords scope ∧ Kept keywords table ↔
      (∀ k ∈ keywords, k ++ ['_'] ∈ scope → k ++ ['_'] ∈ keywords) ∧
        NoClash keywords table.items :=
  and_congr reversible_iff kept_iff

/-- The members `class` and `class_`. -/
def classTable : MemberTable ℕ where
  items := [("class".toList, 0), ("class_".toList, 1)]
  nodup := by decide

/-- `class_` comes back as `class`, and one of the two members is lost. -/
theorem not_mangling_class : ¬Reversible Import.keywords {name | IsComponent name} ∧
    ¬Kept Import.keywords classTable := by
  constructor
  · intro h
    have hcomponent : IsComponent "class_".toList := ⟨by decide, by decide⟩
    exact absurd (h.unwrap_wrap _ hcomponent) (by decide +kernel)
  · intro h
    obtain ⟨result, hresult, hkept⟩ := h.kept
    obtain ⟨members, hmembers, hperm⟩ := hresult classTable.items (.refl _)
    have hlost : jclassPre Import.keywords classTable.items = some [("class_".toList, 0)] := by
      decide +kernel
    obtain rfl := Option.some.inj (hlost.symm.trans hmembers)
    have hitem := hkept ("class_".toList, 1) (by decide) (by decide)
    exact absurd (hperm.mem_iff.mpr hitem) (by decide +kernel)

/-- The importer takes the underscore off in the same way. -/
theorem import_keywordUnwrap_eq : Import.keywordUnwrap = unwrap Import.keywords := by
  funext name
  have hlast : name.getLast? = some '_' ↔ ['_'] <:+ name := by
    rw [List.getLast?_eq_some_iff]
    exact exists_congr fun _ ↦ eq_comm
  rw [Import.keywordUnwrap, unwrap]
  by_cases hsuffix : ['_'] <:+ name
  · rw [if_neg (not_not_intro hsuffix)]
    simp only [hlast.mpr hsuffix, true_and]
  · rw [if_pos hsuffix, if_neg fun h ↦ hsuffix (hlast.mp h.1)]

end JPype.Keywords
