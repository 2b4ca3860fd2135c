import TradeWire.Proofs.Wire.Succession

/-! Bytes behind the end of a buffer take nothing away from what was read. -/

set_option autoImplicit false
set_option relaxedAutoImplicit false

namespace TradeWire

namespace Buffer

private theorem slice?_append_right {buf data : Bytes} {start count : Int} (more : Bytes)
    (found : slice? buf start count = some data) : slice? (buf ++ more) start count = some data := by
  obtain ⟨begins, counted, within, rfl⟩ := slice?_eq_some.mp found
  refine slice?_eq_some.mpr ⟨begins, counted, ?_, ?_⟩
  · rw [List.length_append]
    omega
  · rw [List.drop_append_of_le_length (by omega), List.take_append_of_le_length]
    rw [List.length_drop]
    omega

theorem isShort_append {buf : Bytes} {start count : Int} (more : Bytes)
    (present : ¬isShort buf.length start count = true) :
    ¬isShort (buf ++ more).length start count = true := by
  simp only [isShort, Bool.or_eq_true, decide_eq_true_eq, not_or, List.length_append] at present ⊢
  omega

end Buffer

/-- What is read from a buffer is read from every longer one. -/
def Reader.Persists {α : Type} (read : Reader α) : Prop :=
  ∀ (buf more : Bytes) (pos : Int) (out : α × Int), read buf pos = .ok out → read (buf ++ more) pos = .ok out

theorem readAt_append {owner field : String} {buf data : Bytes} {start count : Int} (more : Bytes)
    (read : readAt owner field buf start count = .ok data) :
    readAt owner field (buf ++ more) start count = .ok data := by
  have found : Buffer.slice? buf start count = some data := by
    rw [← toOption_readAt, read]
    rfl
  simp only [readAt, Buffer.slice?_append_right more found]

private theorem readElementary_append {owner : String} {buf : Bytes} {start : Int} {f : Field} {s : Slot}
    (more : Bytes) (read : readElementary owner buf start f = .ok s) :
    readElementary owner (buf ++ more) start f = .ok s := by
  match f with
  | .primitive name _ size (.int form) =>
    obtain ⟨data, here, same⟩ := map_eq_ok.mp read
    exact map_eq_ok.mpr ⟨data, readAt_append more here, same⟩
  | .primitive name _ size (.bytes _) =>
    obtain ⟨data, here, same⟩ := map_eq_ok.mp read
    exact map_eq_ok.mpr ⟨data, readAt_append more here, same⟩
  | .primitive _ _ _ .pad | .primitive _ _ _ (.varBytes _) | .nested .. => exact read

private theorem readBlock_append {owner : String} {buf : Bytes} {start : Int} {parts : List (ReadPart × Int)}
    {slots : List Slot} (more : Bytes) (read : readBlock owner buf start parts = .ok slots) :
    readBlock owner (buf ++ more) start parts = .ok slots := by
  induction parts generalizing slots with
  | nil => exact read
  | cons head rest ih =>
    obtain ⟨part, offset⟩ := head
    simp only [readBlock] at read
    split at read
    · cases read
    · rename_i slot first
      split at read
      · cases read
      · rename_i others tail
        simp only [readBlock, readElementary_append more first, ih tail]
        exact read

private theorem readInTurn_persists {α : Type} {read : Reader α} (each : read.Persists) (count : Nat) :
    (readInTurn read count).Persists := by
  induction count with
  | zero =>
    intro buf more pos out done
    exact done
  | succ count ih =>
    intro buf more pos out done
    simp only [readInTurn] at done
    split at done
    · cases done
    · rename_i item next first
      split at done
      · cases done
      · rename_i items stop tail
        simp only [readInTurn, each buf more pos _ first, ih buf more next _ tail]
        exact done

private theorem readRun_persists {owner : String} {earlier : List Slot} {placed : PlacedRun ReadPart}
    (parts : ∀ part ∈ placed.run.members, ∀ count, (part.read count).Persists) :
    (readRun owner earlier placed).Persists := by
  intro buf more pos out done
  obtain ⟨run, width, start⟩ := placed
  cases run with
  | block first rest =>
    simp only [readRun] at done ⊢
    split at done
    · cases done
    · rename_i present
      obtain ⟨slots, here, same⟩ := map_eq_ok.mp done
      rw [if_neg (Buffer.isShort_append more present)]
      exact map_eq_ok.mpr ⟨slots, readBlock_append more here, same⟩
  | single part =>
    have lasts := parts part (by simp [Run.members])
    -- a part that reads one slot
    have one : ∀ count, ((part.read count buf pos).map fun out => ([out.1], out.2)) = .ok out →
        ((part.read count (buf ++ more) pos).map fun out => ([out.1], out.2)) = .ok out := by
      intro count read
      obtain ⟨found, here, same⟩ := map_eq_ok.mp read
      exact map_eq_ok.mpr ⟨found, lasts count buf more pos found here, same⟩
    obtain ⟨f, read⟩ := part
    cases f with
    | primitive name type size kind =>
      cases kind with
      | varBytes counter =>
        rw [readRun_varBytes] at done ⊢
        split at done
        · cases done
        · rename_i bounded
          split at done
          · cases done
          · rename_i present
            obtain ⟨data, here, same⟩ := map_eq_ok.mp done
            rw [if_neg bounded, if_neg (Buffer.isShort_append more present)]
            exact map_eq_ok.mpr ⟨data, readAt_append more here, same⟩
      | int | pad | bytes => exact one 1 done
    | nested name repetition element =>
      cases repetition with
      | once => exact one 1 done
      | array count => exact one count done
      | group counter least most =>
        rw [readRun_group] at done ⊢
        split at done
        · cases done
        · rename_i bounded
          rw [if_neg bounded]
          exact one _ done

private theorem readRuns_persists {owner : String} {base : Int} {placed : List (PlacedRun ReadPart)}
    (parts : ∀ p ∈ placed, ∀ part ∈ p.run.members, ∀ count, (part.read count).Persists)
    (earlier : List Slot) : (readRuns owner base earlier placed).Persists := by
  induction placed generalizing earlier with
  | nil =>
    intro buf more pos out done
    exact done
  | cons p rest ih =>
    intro buf more pos out done
    simp only [readRuns] at done ⊢
    split at done
    · cases done
    · rename_i slots next first
      rw [readRun_persists (parts p (by simp)) buf more _ _ first]
      exact ih (fun q later => parts q (by simp [later])) _ buf more next out done

private theorem Field.readNested_persists {f : Field}
    (below : ∀ element, f.element? = some element → element.read.Persists) (count : Nat) :
    (f.readNested count).Persists := by
  intro buf more pos out done
  match f with
  | .primitive .. => exact done
  | .nested _ .once element =>
    simp only [Field.readNested] at done ⊢
    obtain ⟨found, here, same⟩ := map_eq_ok.mp done
    exact map_eq_ok.mpr ⟨found, below element rfl buf more pos found here, same⟩
  | .nested _ (.array _) element | .nested _ (.group ..) element =>
    simp only [Field.readNested] at done ⊢
    obtain ⟨found, here, same⟩ := map_eq_ok.mp done
    exact map_eq_ok.mpr ⟨found, readInTurn_persists (below element rfl) count buf more pos found here, same⟩

private theorem Layout.read_persists (l : Layout) : l.read.Persists := by
  induction l using Layout.nesting with
  | step name message size fields ih =>
    intro buf more pos out done
    simp only [Layout.read] at done ⊢
    refine readRuns_persists ?_ [] buf more pos out done
    intro p listed part inside
    have members := flatMap_members_placedRuns ReadPart.field (readParts fields)
    have member : part ∈ readParts fields := members ▸ List.mem_flatMap.mpr ⟨p, listed, inside⟩
    rw [readParts_eq_map] at member
    obtain ⟨f, here, rfl⟩ := List.mem_map.mp member
    exact Field.readNested_persists (ih f here)

theorem Record.unpack_append {l : Layout} {buf : Bytes} {off : Int} {out : Record × Int} (more : Bytes)
    (unpacked : Record.unpack l buf off = .ok out) : Record.unpack l (buf ++ more) off = .ok out := by
  obtain ⟨found, read, same⟩ := map_eq_ok.mp unpacked
  exact map_eq_ok.mpr ⟨found, l.read_persists buf more off found read, same⟩

end TradeWire
