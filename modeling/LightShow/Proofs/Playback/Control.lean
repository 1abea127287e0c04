import LightShow.Proofs.Playback.Step

namespace LightShow

namespace Control

variable {α β : Type} {playable : Pad → Track Binary64 → Prop} {pre : Rig → Prop}

/-- From every rig with the first property the action takes permitted steps only, to an answer and
a rig with the second property. -/
def Spec (playable : Pad → Track Binary64 → Prop) (pre : Rig → Prop) (x : Control α)
    (post : α → Rig → Prop) : Prop :=
  ∀ rig, pre rig → Rig.Leads playable rig (x.run rig).2 ∧ post (x.run rig).1 (x.run rig).2

/-- An answer that is given at once takes no step. -/
theorem Spec.pure {a : α} {post : α → Rig → Prop} (h : ∀ rig, pre rig → post a rig) :
    Spec playable pre (pure a) post :=
  fun rig hrig => ⟨.refl, h rig hrig⟩

/-- Actions one after another: what holds behind the first is what the second begins with. -/
theorem Spec.bind {x : Control α} {f : α → Control β} {mid : α → Rig → Prop}
    {post : β → Rig → Prop} (hx : Spec playable pre x mid)
    (hf : ∀ a, Spec playable (mid a) (f a) post) : Spec playable pre (x >>= f) post := by
  intro rig hrig
  obtain ⟨hleads, hmid⟩ := hx rig hrig
  obtain ⟨hleads', hpost⟩ := hf _ _ hmid
  exact ⟨hleads.trans hleads', hpost⟩

/-- Less may be known at the end, and more at the beginning. -/
theorem Spec.mono {x : Control α} {pre' : Rig → Prop} {post post' : α → Rig → Prop}
    (h : Spec playable pre x post) (hpre : ∀ rig, pre' rig → pre rig)
    (hpost : ∀ a rig, post a rig → post' a rig) : Spec playable pre' x post' := by
  intro rig hrig
  obtain ⟨hleads, hanswer⟩ := h rig (hpre rig hrig)
  exact ⟨hleads, hpost _ _ hanswer⟩

/-- What every step preserves may be carried through an action. -/
theorem Spec.frame {x : Control α} {post : α → Rig → Prop} {kept : Rig → Prop}
    (hkept : ∀ rig rig', Rig.Leads playable rig rig' → kept rig → kept rig')
    (h : Spec playable pre x post) :
    Spec playable (fun rig => pre rig ∧ kept rig) x fun a rig => post a rig ∧ kept rig := by
  intro rig hrig
  obtain ⟨hleads, hanswer⟩ := h rig hrig.1
  exact ⟨hleads, hanswer, hkept _ _ hleads hrig.2⟩

/-- What follows from the first property, or stands beside it, is at hand in the proof. -/
theorem Spec.use {x : Control α} {post : α → Rig → Prop} {p : Prop} (hp : ∀ rig, pre rig → p)
    (h : p → Spec playable pre x post) : Spec playable pre x post :=
  fun rig hrig => h (hp rig hrig) rig hrig

/-- A fact that does not depend on the rig may be taken out of the first property. -/
theorem Spec.of_and {x : Control α} {post : α → Rig → Prop} {p : Prop}
    (h : p → Spec playable pre x post) : Spec playable (fun rig => p ∧ pre rig) x post :=
  fun rig hrig => h hrig.1 rig hrig.2

theorem Spec.get : Spec playable pre get fun _ rig => pre rig :=
  fun _ hrig => ⟨.refl, hrig⟩

theorem Spec.modify {f : Rig → Rig} {post : Unit → Rig → Prop}
    (h : ∀ rig, pre rig → Rig.Leads playable rig (f rig) ∧ post () (f rig)) :
    Spec playable pre (modify f) post := h

theorem Spec.modifyGet {f : Rig → α × Rig} {post : α → Rig → Prop}
    (h : ∀ rig, pre rig → Rig.Leads playable rig (f rig).2 ∧ post (f rig).1 (f rig).2) :
    Spec playable pre (modifyGet f) post := h

/-- From every rig with the first property the action comes to a rig with the second, and to a good
answer. The steps in between do not matter. -/
def Brings (pre : Rig → Prop) (x : Control α) (post : Rig → Prop) (good : α → Prop) : Prop :=
  ∀ rig, pre rig → post (x.run rig).2 ∧ good (x.run rig).1

variable {mid post : Rig → Prop}

theorem Brings.pure {a : α} {good : α → Prop} (h : good a) : Brings pre (pure a) pre good :=
  fun _ hrig => ⟨hrig, h⟩

/-- Actions one after another come to a good answer if the second does from whatever good answer the
first has given. -/
theorem Brings.bind {x : Control α} {f : α → Control β} {good : α → Prop} {good' : β → Prop}
    (hx : Brings pre x mid good) (hf : ∀ a, good a → Brings mid (f a) post good') :
    Brings pre (x >>= f) post good' := by
  intro rig hrig
  obtain ⟨hmid, hgood⟩ := hx rig hrig
  exact hf _ hgood _ hmid

theorem Brings.mono {x : Control α} {good good' : α → Prop} (h : Brings pre x post good)
    (hgood : ∀ a, good a → good' a) : Brings pre x post good' :=
  fun rig hrig => (h rig hrig).imp id (hgood _)

theorem Brings.get : Brings pre get pre fun _ => True :=
  fun _ hrig => ⟨hrig, trivial⟩

/-- Actions that keep a property each keep it together. -/
theorem Brings.mapM {f : β → Control α} {bs : List β}
    (h : ∀ b ∈ bs, Brings pre (f b) pre fun _ => True) :
    Brings pre (bs.mapM f) pre fun _ => True := by
  induction bs with
  | nil => exact .pure trivial
  | cons b rest ih =>
    rw [List.mapM_cons]
    refine (h b List.mem_cons_self).bind fun _ _ => ?_
    exact (ih fun b' hb' => h b' (List.mem_cons_of_mem b hb')).bind fun _ _ => .pure trivial

end Control

end LightShow
