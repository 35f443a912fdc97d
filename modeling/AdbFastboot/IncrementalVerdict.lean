import AdbFastboot.InstallSession

namespace AdbFastboot

open DeviceFrame StateCall Link List

variable (ids : StreamIds)

namespace DeviceFrame

end DeviceFrame

def Link.Closes (ids : StreamIds) (frames : List DeviceFrame) (link : Link) : Prop :=
  link.Offers (DeviceFrame.inbox ids frames ++ [.ok ids.closed])

/-- A call takes the frames up to those in `left`, or fails. -/
def Leaves {α : Type} (ids : StreamIds) (x : LinkCall α) (link : Link) :
    Option (List DeviceFrame) → Prop
  | some late => ∃ a, x.Returns link a (Link.Closes ids late)
  | none => ∃ e, (x.runOn link).1 = .error e

section

variable {ids : StreamIds} {α β : Type} {link : Link} {left : Option (List DeviceFrame)}
  {out : Outbox}

/-- What one call leaves of the frames the next one meets. -/
theorem Leaves.bind {x : LinkCall α} {f : α → LinkCall β}
    {g : List DeviceFrame → Option (List DeviceFrame)} (hx : Leaves ids x link left)
    (hf : ∀ a late link', link'.Closes ids late → Leaves ids (f a) link' (g late)) :
    Leaves ids (x >>= f) link (left.bind g) := by
  cases left with
  | none =>
    obtain ⟨e, he⟩ := hx
    have hr : x.runOn link = (.error e, (x.runOn link).2) := Prod.ext he rfl
    exact ⟨e, by rw [runOn_bind_error hr]⟩
  | some late =>
    obtain ⟨a, link', hr, hc⟩ := hx
    have hl := hf a late link' hc
    rw [Option.bind_some]
    cases hg : g late with
    | none =>
      rw [hg] at hl
      obtain ⟨e, he⟩ := hl
      exact ⟨e, by rw [runOn_bind_ok hr]; exact he⟩
    | some rest =>
      rw [hg] at hl
      obtain ⟨b, link'', hr', hrs⟩ := hl
      exact ⟨b, link'', by rw [runOn_bind_ok hr]; exact hr', hrs⟩

variable {frames : List DeviceFrame}

variable (database : List IsDatabaseEntry)

end

end AdbFastboot
