import HostScript.Proofs.Machine.Work

namespace HostScript

/-!
# What stores give back

A name has the value that was put under it last, and other names keep theirs.
-/

namespace Entries

theorem find?_insert (key other : Text) (val : α) (entries : Entries α) :
    (entries.insert key val).find? other =
      if other = key then some val else entries.find? other := by
  induction entries with
  | nil => simp only [insert, find?]
  | cons entry _ ih =>
    obtain ⟨first, _⟩ := entry
    unfold insert
    by_cases same : key = first
    · subst same
      by_cases found : other = key <;> simp only [find?, found, if_true, if_false]
    · rw [if_neg same]
      split
      · by_cases found : other = key <;> simp only [find?, found, if_true, if_false]
      · by_cases found : other = first
        · have differs : other ≠ key := fun isKey => same (isKey.symm.trans found)
          simp only [find?, found, if_true]
          rw [if_neg (found ▸ differs)]
        · simp only [find?, found, if_false, ih]

end Entries

namespace Value

theorem isPersistable_of_primOfItem (read : primOfItem? prim item = some val) :
    val.isPersistable := by
  cases prim with
  | bool =>
    obtain ⟨_, _, rfl⟩ := Option.map_eq_some_iff.mp read
    rfl
  | int kind =>
    obtain ⟨_, _, rest⟩ := Option.bind_eq_some_iff.mp read
    simp only [Option.ite_none_right_eq_some, Option.some.injEq] at rest
    exact rest.2 ▸ rfl
  | float kind =>
    obtain ⟨_, _, rest⟩ := Option.bind_eq_some_iff.mp read
    cases kind with
    | double => exact Option.some.inj rest ▸ rfl
    | single =>
      simp only [Option.ite_none_left_eq_some, Option.some.injEq] at rest
      exact rest.2 ▸ rfl

theorem isPersistable_of_ofItem (persistable : ∀ item val, form item = some val → val.isPersistable)
    (read : ofItem representation form item = .ok val) : val.isPersistable := by
  unfold ofItem at read
  split at read
  · cases read
  · split at read
    · next found => exact persistable _ _ (Except.ok.inj read ▸ found)
    · cases read

theorem isPersistable_of_decode (done : decode bytes = .ok val) : val.isPersistable := by
  unfold decode at done
  split at done
  · unfold ofEntry at done
    dsimp only at done
    split at done
    · cases done
    · split at done
      · cases done
      · split at done
        · cases done
        · split at done
          · exact isPersistable_of_ofItem (fun _ _ => isPersistable_of_primOfItem) done
          · refine isPersistable_of_ofItem (fun _ val read => ?_) done
            obtain ⟨_, _, rfl⟩ := Option.map_eq_some_iff.mp read
            rfl
          · cases done
            rfl
          · cases done
  · cases done

end Value

namespace Store

/-- What was put into a store is all that is new in it; a database reads back persisted forms. -/
theorem get_of_put {store : Store} (done : store.put name val = .ok after)
    (get : after.get other = .ok (some found)) :
    found = val ∨ store.get other = .ok (some found) ∨ found.isPersistable := by
  have ofInsert : ∀ {vals : Entries Value}, (vals.insert name val).find? other = some found →
        found = val ∨ vals.find? other = some found := by
    intro vals isThere
    rw [Entries.find?_insert] at isThere
    split at isThere
    · exact .inl (Option.some.inj isThere).symm
    · exact .inr isThere
  cases store with
  | memory vals =>
    cases done
    rcases ofInsert (Except.ok.inj get) with isNew | isOld
    · exact .inl isNew
    · exact .inr (.inl (congrArg Except.ok isOld))
  | durable _ _ =>
    obtain ⟨_, _, rest⟩ := ok_of_bind done
    cases rest
    refine .inr (.inr ?_)
    simp only [Store.get, Database.get] at get
    split at get
    · cases get
    · split at get
      · cases get
      · split at get
        · next decoded =>
          cases get
          exact Value.isPersistable_of_decode decoded
        · cases get
  | faulty _ _ vals =>
    simp only [Store.put] at done
    split at done
    · cases done
    · cases done
      simp only [Store.get] at get ⊢
      split at get
      · cases get
      · next isReadable =>
        rw [if_neg isReadable]
        rcases ofInsert (Except.ok.inj get) with isNew | isOld
        · exact .inl isNew
        · exact .inr (.inl (congrArg Except.ok isOld))

end Store

end HostScript
