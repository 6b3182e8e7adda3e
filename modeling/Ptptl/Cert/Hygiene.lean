import Ptptl.Sfs.Insert

set_option autoImplicit false

/-! # Names and the local certificate over a store's history -/

namespace Cert

open Ptp Ptp.Store

variable {pki : Pki} {names : Names pki}

/-- What the certificate tool and the file sharing application do to a store. -/
inductive Op (pki : Pki) where
  | insert (now : Nat) (ident : Certified pki) (exportkey : Bool)
  | sfsInsert (now : Nat) (ident : Certified pki)
  | remove (name : CString)

def step (names : Names pki) (list : List (Entry pki)) : Op pki → Option (List (Entry pki))
  | .insert now ident exportkey => (insert names list now ident exportkey).map Prod.snd
  | .sfsInsert now ident => (Sfs.insert names list now ident).map Prod.snd
  | .remove name => (remove names list name).map Prod.snd

def run (names : Names pki) (list : List (Entry pki)) : List (Op pki) → Option (List (Entry pki))
  | [] => some list
  | op :: rest => do
    let next ← step names list op
    run names next rest

/-- Subject names differ, and the local certificate comes before any other one with a key. -/
structure Hygienic (names : Names pki) (localId : Certified pki) (list : List (Entry pki)) :
    Prop where
  distinct : (idents list).Pairwise fun first second =>
    names.name first.cert ≠ names.name second.cert
  present : (idents list).find? (fun ident => ident.key.isSome) = some localId

/-- What `Store::Remove` is right for: a certificate that is added replaces one that no earlier
certificate shares the key of, and one that is removed does not share that of an earlier local
certificate. -/
def Proper (names : Names pki) (list : List (Entry pki)) : Op pki → Prop
  | .insert now ident _ | .sfsInsert now ident => Adds names list now ident →
    ∀ place old, findIdent names list (names.name ident.cert) false none = some (some (place, old)) →
      ∀ other ∈ idents (list.take place), names.getKey other.cert ≠ names.getKey old.cert
  | .remove name => ∀ place old own localId,
    findIdent names list (some name) false none = some (some (place, old)) →
      findIdent names list none true none = some (some (own, localId)) → own < place →
      names.getKey localId.cert ≠ names.getKey old.cert

def ProperRun (names : Names pki) (list : List (Entry pki)) : List (Op pki) → Prop
  | [] => True
  | op :: rest =>
    Proper names list op ∧ ∀ next, step names list op = some next → ProperRun names next rest

theorem Hygienic.without {localId : Certified pki} {front back : List (Entry pki)}
    {entry : Entry pki} {old : Certified pki}
    (hygienic : Hygienic names localId (front ++ entry :: back))
    (certified : entry.payload.certified = some old) (other : old ≠ localId) :
    Hygienic names localId (front ++ back) := by
  have split : idents (front ++ entry :: back) = idents front ++ old :: idents back := by
    rw [idents_append, idents_cons_some certified]
  have distinct := hygienic.distinct
  have present := hygienic.present
  rw [split] at distinct present
  refine ⟨?_, ?_⟩
  · rw [idents_append]
    exact distinct.sublist ((List.sublist_cons_self _ _).append_left _)
  · rw [idents_append, List.find?_append]
    rw [List.find?_append, List.find?_cons] at present
    cases first : (idents front).find? fun ident => ident.key.isSome with
    | some ident => simpa [first] using present
    | none =>
      cases key : old.key.isSome with
      | true =>
        rw [first, key] at present
        exact absurd (Option.some.inj present) other
      | false => simpa [first, key] using present

theorem Hygienic.add {localId new : Certified pki} {list : List (Entry pki)} {entry : Entry pki}
    (hygienic : Hygienic names localId list) (certified : entry.payload.certified = some new)
    (fresh : ∀ other ∈ idents list, names.name other.cert ≠ names.name new.cert) :
    Hygienic names localId (list ++ [entry]) := by
  have split : idents (list ++ [entry]) = idents list ++ [new] := by
    rw [idents_append, idents_cons_some certified]
    rfl
  refine ⟨?_, ?_⟩
  · rw [split, List.pairwise_append]
    refine ⟨hygienic.distinct, List.pairwise_singleton _ _, ?_⟩
    intro other member last same
    rw [List.mem_singleton.1 same]
    exact fresh other member
  · rw [split, List.find?_append, hygienic.present]
    rfl

theorem findIdent_local {list : List (Entry pki)} {found : Option (Nat × Certified pki)}
    (finds : findIdent names list none true none = some found) :
    found.map Prod.snd = (idents list).find? fun ident => ident.key.isSome := by
  cases found with
  | none =>
    refine (List.find?_eq_none.2 ?_).symm
    intro other member
    have keyless := findFrom_none finds other member
    rw [matchesIdent_key, Option.some.injEq] at keyless
    simp [keyless]
  | some found =>
    rcases findFrom_found finds with ⟨front, entry, back, rfl, -, certified, matched, before⟩
    rw [matchesIdent_key, Option.some.injEq] at matched
    rw [idents_append, idents_cons_some certified, List.find?_append, List.find?_cons, matched]
    have none : (idents front).find? (fun ident => ident.key.isSome) = none := by
      refine List.find?_eq_none.2 ?_
      intro other member
      have keyless := before other member
      rw [matchesIdent_key, Option.some.injEq] at keyless
      simp [keyless]
    rw [none]
    rfl

theorem sameName_some {first second : Option CString} {same : Bool}
    (compared : sameName first second = some same) :
    first.isSome = true ∧ (same = true ↔ first = second) := by
  cases first with
  | none => simp [sameName] at compared
  | some first =>
    cases second with
    | none => simp [sameName] at compared
    | some second =>
      simp only [sameName, Option.bind_eq_bind, Option.bind_some, Option.some.injEq] at compared
      rw [← compared, beq_iff_eq, Option.some.injEq]
      exact ⟨rfl, Iff.rfl⟩

theorem Adds.named {list : List (Entry pki)} {now : Nat} {ident : Certified pki}
    (adds : Adds names list now ident) : ∃ name, names.name ident.cert = some name := by
  rcases verify_zero.1 adds.1 with ⟨issuer, found, -⟩
  rcases Option.bind_eq_some_iff.1 found with ⟨same, compared, -⟩
  exact Option.isSome_iff_exists.1 (sameName_some compared).1

theorem Adds.other {list : List (Entry pki)} {now : Nat} {ident localId : Certified pki}
    (adds : Adds names list now ident) (hygienic : Hygienic names localId list) :
    names.name localId.cert ≠ names.name ident.cert := by
  rcases Option.bind_eq_some_iff.1 adds.2 with ⟨found, finds, compared⟩
  have first := findIdent_local finds
  rw [hygienic.present] at first
  cases found with
  | none => cases first
  | some found =>
    cases first
    intro same
    cases (sameName_some compared).2.2 same

theorem findIdent_name {list : List (Entry pki)} {name : CString} {place : Nat}
    {old : Certified pki}
    (found : findIdent names list (some name) false none = some (some (place, old))) :
    ∃ front entry back, list = front ++ entry :: back ∧ place = front.length ∧
      entry.payload.certified = some old ∧ names.name old.cert = some name := by
  rcases findFrom_found found with ⟨front, entry, back, split, at', certified, matched, -⟩
  refine ⟨front, entry, back, split, ?_, certified, (matchesIdent_name matched).1 rfl⟩
  rw [at', Nat.zero_add]

theorem clear_hygienic {localId : Certified pki} {list kept : List (Entry pki)} {name : CString}
    (hygienic : Hygienic names localId list) (other : names.name localId.cert ≠ some name)
    (unshared : ∀ place old,
      findIdent names list (some name) false none = some (some (place, old)) →
        ∀ other ∈ idents (list.take place), names.getKey other.cert ≠ names.getKey old.cert)
    (cleared : clear names list (some name) = some kept) :
    Hygienic names localId kept ∧ ∀ other ∈ idents kept, names.name other.cert ≠ some name := by
  rcases Option.bind_eq_some_iff.1 cleared with ⟨found, finds, cleared⟩
  cases found with
  | none =>
    cases cleared
    refine ⟨hygienic, ?_⟩
    intro ident member same
    have passed := findFrom_none finds ident member
    cases (matchesIdent_name passed).2 same
  | some found =>
    rcases found with ⟨place, old⟩
    rcases findIdent_name finds with ⟨front, entry, back, rfl, rfl, certified, named⟩
    rcases Option.bind_eq_some_iff.1 cleared with ⟨modulus, key, removed⟩
    have before := unshared front.length old finds
    rw [List.take_left, key] at before
    have split : kept = front ++ back := by
      rcases removeFrom_found certified ((Nat.zero_add front.length).symm ▸ removed) with
        split | ⟨first, stop, shared, last, rfl, stops, same, -⟩
      · exact split
      · refine absurd same (before shared ?_)
        rw [idents_append, idents_cons_some stops]
        exact List.mem_append_right _ List.mem_cons_self
    rw [split]
    refine ⟨hygienic.without certified (fun same => other (same ▸ named)), ?_⟩
    have distinct := hygienic.distinct
    rw [idents_append, idents_cons_some certified, List.pairwise_append, List.pairwise_cons]
      at distinct
    intro ident member same
    rw [idents_append] at member
    rcases List.mem_append.1 member with first | last
    · exact distinct.2.2 ident first old List.mem_cons_self (same.trans named.symm)
    · exact distinct.2.1.1 ident last (named.trans same.symm)

theorem replace_hygienic {localId ident : Certified pki} {list next : List (Entry pki)}
    {now : Nat} {exportkey : Bool} (hygienic : Hygienic names localId list)
    (adds : Adds names list now ident)
    (unshared : ∀ place old,
      findIdent names list (names.name ident.cert) false none = some (some (place, old)) →
        ∀ other ∈ idents (list.take place), names.getKey other.cert ≠ names.getKey old.cert)
    (replaced : replace names list ident exportkey = some next) :
    Hygienic names localId next := by
  rcases adds.named with ⟨name, named⟩
  have other := adds.other hygienic
  rcases replace_added replaced with ⟨kept, copy, cleared, copied, rfl⟩
  rw [named] at other unshared cleared
  rcases clear_hygienic hygienic other unshared cleared with ⟨hygienic, fresh⟩
  refine hygienic.add rfl ?_
  have sameCert : copy.cert = ident.cert := by
    rw [copied]
    split <;> rfl
  rw [sameCert, named]
  exact fresh

theorem Hygienic.place {localId ident : Certified pki} {front front' back back' : List (Entry pki)}
    {entry entry' : Entry pki} (hygienic : Hygienic names localId (front ++ entry :: back))
    (certified : entry.payload.certified = some ident)
    (certified' : entry'.payload.certified = some ident)
    (same : front ++ entry :: back = front' ++ entry' :: back') :
    front.length = front'.length := by
  have distinct := hygienic.distinct
  have apart {first second third : List (Entry pki)} {one two : Entry pki}
      (one' : one.payload.certified = some ident) (two' : two.payload.certified = some ident)
      (distinct : (idents (first ++ one :: (second ++ two :: third))).Pairwise
        fun one two => names.name one.cert ≠ names.name two.cert) : False := by
    rw [idents_append, idents_cons_some one', idents_append, idents_cons_some two',
      List.pairwise_append, List.pairwise_cons] at distinct
    exact distinct.2.1.1 ident (List.mem_append_right _ List.mem_cons_self) rfl
  rcases List.append_eq_append_iff.1 same with ⟨middle, rfl, rest⟩ | ⟨middle, rfl, rest⟩
  · cases middle with
    | nil => simp
    | cons head middle =>
      cases rest
      exact absurd distinct (apart certified certified')
  · cases middle with
    | nil => simp
    | cons head middle =>
      cases rest
      rw [List.append_assoc] at distinct
      exact absurd distinct (apart certified' certified)

theorem remove_hygienic {localId : Certified pki} {list next : List (Entry pki)} {name : CString}
    {status : Int} (hygienic : Hygienic names localId list)
    (proper : Proper names list (.remove name))
    (removed : remove names list name = some (status, next)) : Hygienic names localId next := by
  rcases Option.bind_eq_some_iff.1 removed with ⟨own, locals, removed⟩
  rcases Option.bind_eq_some_iff.1 removed with ⟨found, finds, removed⟩
  have first := findIdent_local locals
  rw [hygienic.present] at first
  cases own with
  | none => cases first
  | some own =>
    rcases own with ⟨ownPlace, own⟩
    cases first
    cases found with
    | none =>
      cases removed
      exact hygienic
    | some found =>
      rcases found with ⟨place, old⟩
      simp only at removed
      split at removed
      next =>
        cases removed
        exact hygienic
      next elsewhere =>
        rcases Option.bind_eq_some_iff.1 removed with ⟨kept, taken, same⟩
        cases same
        rcases Option.bind_eq_some_iff.1 taken with ⟨modulus, key, taken⟩
        have different := proper place old ownPlace _ finds locals
        rcases findFrom_found locals with ⟨first, mine, last, split, at', owned, -, -⟩
        rcases findIdent_name finds with ⟨front, entry, back, rfl, rfl, certified, -⟩
        rw [Nat.zero_add] at at'
        rcases removeFrom_found certified ((Nat.zero_add front.length).symm ▸ taken) with
          rfl | ⟨before, stop, shared, after, rfl, stops, sharedKey, rfl⟩
        · refine hygienic.without certified ?_
          rintro rfl
          exact elsewhere (congrArg some (at'.trans (hygienic.place certified owned split).symm))
        · rw [List.append_assoc, List.cons_append] at hygienic split
          refine hygienic.without stops ?_
          rintro rfl
          refine different ?_ (sharedKey.trans key.symm)
          rw [at', ← hygienic.place stops owned split, List.length_append, List.length_cons]
          omega

theorem step_hygienic {localId : Certified pki} {list next : List (Entry pki)} {op : Op pki}
    (hygienic : Hygienic names localId list) (proper : Proper names list op)
    (stepped : step names list op = some next) : Hygienic names localId next := by
  cases op with
  | insert now ident exportkey =>
    rcases Option.map_eq_some_iff.1 stepped with ⟨⟨status, _⟩, inserted, rfl⟩
    rcases insert_cases inserted with ⟨-, rfl⟩ | ⟨adds, -, replaced⟩
    · exact hygienic
    · exact replace_hygienic hygienic adds (proper adds) replaced
  | sfsInsert now ident =>
    rcases Option.map_eq_some_iff.1 stepped with ⟨⟨status, _⟩, inserted, rfl⟩
    rcases Sfs.insert_cases inserted with ⟨-, -, rfl⟩ | ⟨-, -, -, rfl⟩ | ⟨adds, -, replaced⟩
    · exact hygienic
    · exact hygienic
    · exact replace_hygienic hygienic adds (proper adds) replaced
  | remove name =>
    rcases Option.map_eq_some_iff.1 stepped with ⟨⟨status, _⟩, removed, rfl⟩
    exact remove_hygienic hygienic proper removed

theorem run_hygienic {localId : Certified pki} {list final : List (Entry pki)}
    {ops : List (Op pki)} (distinct : (idents list).Pairwise fun first second =>
      names.name first.cert ≠ names.name second.cert)
    (single : (idents list).filter (fun ident => ident.key.isSome) = [localId])
    (proper : ProperRun names list ops) (ran : run names list ops = some final) :
    ((idents final).Pairwise fun first second =>
        names.name first.cert ≠ names.name second.cert) ∧
      localId ∈ idents final ∧ localId.key.isSome = true := by
  have hygienic : Hygienic names localId list := by
    refine ⟨distinct, ?_⟩
    rw [← List.head?_filter, single]
    rfl
  clear distinct single
  induction ops generalizing list with
  | nil =>
    cases ran
    have key := List.find?_some hygienic.present
    exact ⟨hygienic.distinct, List.mem_of_find?_eq_some hygienic.present, key⟩
  | cons op rest ih =>
    rcases Option.bind_eq_some_iff.1 ran with ⟨next, stepped, later⟩
    exact ih (proper.2 next stepped) later (step_hygienic hygienic proper.1 stepped)

def double : Paper := ⟨4, 2, 1, 1, 1000⟩

theorem run_hygienic_renewed : ∃ final,
    run paperNames paperStore [.insert 5 ⟨brief, none⟩ false, .sfsInsert 6 ⟨brief, none⟩] =
      some final ∧
    ((idents final).Pairwise fun first second =>
      paperNames.name first.cert ≠ paperNames.name second.cert) ∧
    localIdent ∈ idents final ∧
    localIdent.key.isSome = true := by
  have distinct : (idents paperStore).Pairwise fun first second =>
      paperNames.name first.cert ≠ paperNames.name second.cert := by
    refine List.pairwise_pair.2 ?_
    exact fun same => absurd (congrArg (Option.map Subtype.val) same) (by decide)
  have ran : ∃ final,
      run paperNames paperStore [.insert 5 ⟨brief, none⟩ false, .sfsInsert 6 ⟨brief, none⟩] =
        some final := ⟨_, rfl⟩
  have proper : ProperRun paperNames paperStore
      [.insert 5 ⟨brief, none⟩ false, .sfsInsert 6 ⟨brief, none⟩] := by
    refine ⟨?_, ?_⟩
    · intro _ place old found
      cases found
    · intro next stepped
      cases stepped
      refine ⟨?_, fun _ _ => trivial⟩
      intro _ place old found other member
      cases found
      have before : other ∈ [⟨authority, none⟩, localIdent] := member
      rcases List.mem_cons.1 before with rfl | before
      · decide
      · rw [List.mem_singleton.1 before]
        decide
  rcases ran with ⟨final, ran⟩
  exact ⟨final, ran, run_hygienic distinct rfl proper ran⟩

theorem run_double : ∃ final,
    run paperNames paperStore [.insert 5 ⟨double, none⟩ false, .insert 6 ⟨double, none⟩ false] =
      some final ∧
    idents final = [⟨authority, none⟩, ⟨double, none⟩, ⟨double, none⟩] :=
  ⟨_, rfl, rfl⟩

end Cert
