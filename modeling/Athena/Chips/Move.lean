import Athena.Chips.Install
/-!
# Chips — a chip is moved

A move takes the entry of the chip out of its record and looks for one of the
client's level to put back. Where it finds one, the slots and the lists agree
again.
-/

namespace Athena

namespace Chips

variable {cfg : Config} {s t u : State} {a : Add} {e e' src : Equip} {c d : Chip} {i : Fin 5}
  {part uniqueid r id level : ℤ} {key : ℕ}

/-! ## The lists -/

/-- A list has an unlocked chip of the id and the level. -/
def Has (l : List Chip) (id level : ℤ) : Prop := ∃ c ∈ l, c.id = id ∧ c.level = level ∧ c.islock = 0

/-- The fitted ones with the chip under its new record. -/
structure Returned (s : State) (a : Add) (t : State) : Prop where
  newchipinfo : t.newchipinfo = s.newchipinfo
  chipinfoarr : Numbered t.chipinfoarr
  inchipinfoarr : t.inchipinfoarr =
    s.inchipinfoarr ++ [⟨a.id, a.level, 0, none, some (recordof a.part a.uniqueid)⟩]
  equip : t.equip = s.equip
  total_eq : ∀ id, total t id = total s id

theorem relistback_spec (hinfo : Numbered s.chipinfoarr) (hhas : Has s.chipinfoarr a.id a.level)
    (hno : ∀ d ∈ s.inchipinfoarr, d.record = some (recordof a.part a.uniqueid) → d.id ≠ a.id) :
    Returned s a (relistback s a) := by
  obtain ⟨c, hc, hid, hlevel, hlock⟩ := hhas
  have hsome := get_chip_isSome hc
  rw [hid, hlevel, hlock] at hsome
  obtain ⟨key, hkey⟩ := Option.isSome_iff_exists.mp hsome
  obtain ⟨d, hd, hdid, hdlevel, hdlock⟩ := get_chip_some hkey
  obtain ⟨hnumbered, htally⟩ := takeone_spec hinfo hd s.inchipinfoarr (some (a.uniqueid, a.part))
  have hno' : ∀ x ∈ s.inchipinfoarr, x.record = some (recordof a.part a.uniqueid) → x.id ≠ d.id := by
    rw [hdid]
    exact hno
  have hin := putin_spec hd hno'
  rw [hdid, Option.some.inj hdlevel, hdlock] at hin
  have hstate : relistback s a = { s with
      chipinfoarr := (removeto_chip key s.chipinfoarr s.inchipinfoarr (some (a.uniqueid, a.part))).1
      inchipinfoarr :=
        (removeto_chip key s.chipinfoarr s.inchipinfoarr (some (a.uniqueid, a.part))).2 } := by
    simp only [relistback, hkey]
  rw [hstate]
  refine ⟨rfl, hnumbered, hin, rfl, fun id => ?_⟩
  have := htally id
  rw [hdid] at this
  simp only [total, hin, tally_append, tally_cons, tally_nil, held, Option.getD_none]
  omega

theorem Emptied.has (h : Emptied cfg s a t e) (hhas : Has s.chipinfoarr id level) :
    Has t.chipinfoarr id level := by
  obtain ⟨c, hc, h1, h2, h3⟩ := hhas
  obtain ⟨k, hk⟩ := List.getElem?_of_mem hc
  obtain ⟨d, hd, hlike⟩ := h.chipinfoarr k c hk
  exact ⟨d, List.mem_of_getElem? hd, hlike.1.trans h1, hlike.2.1.trans h2, hlike.2.2.trans h3⟩

/-- **What leaving a slot does**: the lists, and the equipment the chip leaves. -/
structure Left (cfg : Config) (s : State) (a : Add) (t : State) (e : Equip) (r : ℤ) (src : Equip) :
    Prop where
  fits : Fits cfg (((relistout t a.id r).setequip a.part a.uniqueid e).setequip (r % 10) (r / 10)
    src.floor)
  total_eq : ∀ id, total (relistout t a.id r) id = total s id
  has : Has (relistout t a.id r).chipinfoarr a.id a.level

/-- **The chip leaves its slot.** -/
theorem Emptied.left (h : Emptied cfg s a t e) (hm : is_match cfg (r % 10) (r / 10) = true)
    (hsrc : (t.setequip a.part a.uniqueid e).equip (r % 10) (r / 10) = some src)
    (hi : (src.slots i).chipid = some a.id) (hc : c ∈ t.inchipinfoarr) (hid : c.id = a.id)
    (hr : c.record = some r) (hlock : c.islock = 0)
    (hlevel : c.level = a.level ∨ Has s.chipinfoarr a.id a.level) :
    Left cfg s a t e r (leave a src i) := by
  have hr' : ∀ x : Chip, x.record = some r → x.record = some (recordof (r % 10) (r / 10)) := by
    rw [recordof_split]
    exact fun _ h => h
  have hsome := get_chip_inchip_isSome hc hr
  rw [hid, hlock] at hsome
  obtain ⟨key, hkey⟩ := Option.isSome_iff_exists.mp hsome
  obtain ⟨d, hd, hdid, hdr, hdlock⟩ := get_chip_inchip_some hkey
  have hplain := h.fits.plain d (List.mem_of_getElem? hd)
  have hstate : relistout t a.id r = t.out key := by simp only [relistout, hkey]
  have hout : t.out key = { t with
      inchipinfoarr := t.inchipinfoarr.eraseIdx key
      chipinfoarr := add_chip d.id t.chipinfoarr d.level 1 d.islock none } := by
    rw [State.out, removeto_fitted hd hplain]
  -- the entry that is found is that of the same slot
  have hdi : (src.slots i).chipid = some d.id := by rw [hi, hdid]
  have hci : (src.slots i).chipid = some c.id := by rw [hi, hid]
  obtain ⟨hdchip, -⟩ := h.fits.slot_eq hm hsrc (List.mem_of_getElem? hd) (hr' d hdr) hdi
  obtain ⟨hcchip, -⟩ := h.fits.slot_eq hm hsrc hc (hr' c hr) hci
  have hsame : d.level = c.level := by
    rw [hdchip, Option.some.injEq, Prod.mk.injEq] at hcchip
    exact hcchip.2
  refine ⟨?_, fun id => ?_, ?_⟩
  · rw [hstate, hout]
    have hslots : (leave a src i).floor.slots = Function.update src.slots i (src.slots i).clear := rfl
    refine h.fits.takeout hm hsrc hd (hr' d hdr) hdi hslots rfl h.fits.newchipinfo
      (add_one_spec h.fits.chipinfoarr) rfl ?_
    exact setequip_congr (setequip_congr rfl)
  · rw [hstate, total_out hd hplain h.fits.chipinfoarr, h.total_eq]
  · rw [hstate, hout]
    rcases hlevel with hlevel | hhas
    · obtain ⟨x, hx, h1, h2, h3⟩ := mem_add_chip t.chipinfoarr d.id d.level 1 d.islock
      exact ⟨x, hx, h1.trans hdid, h2.trans (hsame.trans hlevel), h3.trans (Option.some.inj hdlock).symm⟩
    · obtain ⟨x, hx, h1, h2, h3⟩ := h.has hhas
      obtain ⟨k, hk⟩ := List.getElem?_of_mem hx
      obtain ⟨y, hy, hlike⟩ := getElem?_add_chip d.id d.level 1 d.islock hk
      exact ⟨y, List.mem_of_getElem? hy, hlike.1.trans h1, hlike.2.1.trans h2, hlike.2.2.trans h3⟩

/-- **The chip goes from where it left into its slot.** -/
theorem Left.fits_moved (h : Left cfg s a t e r src) (hm : is_match cfg a.part a.uniqueid = true)
    (hempty : ((if r % 10 = a.part ∧ r / 10 = a.uniqueid then src else e).slots a.index).chip = none)
    (hno : ∀ j, ((if r % 10 = a.part ∧ r / 10 = a.uniqueid then src else e).slots j).chipid ≠ some a.id) :
    Fits cfg (moved cfg s a t e src r).1 ∧ ∀ id, total (moved cfg s a t e src r).1 id = total s id := by
  obtain ⟨v, hv⟩ : ∃ v, relistout t a.id r = v := ⟨_, rfl⟩
  have hfits := h.fits
  have htotal := h.total_eq
  have hhas := h.has
  rw [hv] at hfits htotal hhas
  -- the equipment the chip goes to, as it is stored by then
  obtain ⟨f, hf, hslots⟩ : ∃ f : Equip,
      ((v.setequip a.part a.uniqueid e).setequip (r % 10) (r / 10) src.floor).equip a.part a.uniqueid =
        some f ∧ f.slots = (if r % 10 = a.part ∧ r / 10 = a.uniqueid then src else e).slots := by
    split
    · rename_i hsame
      obtain ⟨h1, h2⟩ := hsame
      exact ⟨src.floor, by rw [h1, h2, setequip_self], rfl⟩
    · rename_i hdiff
      refine ⟨e, ?_, rfl⟩
      rw [setequip_of_ne fun heq => hdiff ⟨heq.1.symm, heq.2.symm⟩, setequip_self]
  have hfempty : (f.slots a.index).chip = none := by
    rw [hslots]
    exact hempty
  have hfno : ∀ j, (f.slots j).chipid ≠ some a.id := by
    rw [hslots]
    exact hno
  have hnone : ∀ d ∈ v.inchipinfoarr, d.record = some (recordof a.part a.uniqueid) → d.id ≠ a.id :=
    hfits.absent hm hf hfno
  have hinfo : Numbered v.chipinfoarr := hfits.chipinfoarr
  obtain ⟨b1, b2, b3, b4, b5⟩ := relistback_spec hinfo hhas hnone
  obtain ⟨w, hw⟩ : ∃ w, update_player_attr cfg a.mod a.level a.part
      (find_equip_index s a.part a.uniqueid) a.index true
      (update_player_attr cfg a.mod a.level (r % 10) (find_equip_index s (r % 10) (r / 10)) a.index false
        (relistback v a)) = w := ⟨_, rfl⟩
  have hstate : moved cfg s a t e src r = fitted (w.setequip (r % 10) (r / 10) src.floor) a
      (if r % 10 = a.part ∧ r / 10 = a.uniqueid then src else e) := by
    rw [← hw, ← hv]
    rfl
  obtain ⟨f1, f2, f3, g, hset, hgslots⟩ := fitted_equip (a := a)
    (s := w.setequip (r % 10) (r / 10) src.floor)
    (e := if r % 10 = a.part ∧ r / 10 = a.uniqueid then src else e)
  have hw1 : w.newchipinfo = v.newchipinfo := by
    rw [← hw, update_player_attr_newchipinfo, update_player_attr_newchipinfo, b1]
  have hw2 : w.chipinfoarr = (relistback v a).chipinfoarr := by
    rw [← hw, update_player_attr_chipinfoarr, update_player_attr_chipinfoarr]
  have hw3 : w.inchipinfoarr = (relistback v a).inchipinfoarr := by
    rw [← hw, update_player_attr_inchipinfoarr, update_player_attr_inchipinfoarr]
  have hw4 : w.equip = v.equip := by
    rw [← hw, update_player_attr_equip, update_player_attr_equip, b4]
  rw [hstate]
  refine ⟨hfits.putin hm hf hfempty hfno (hslots ▸ hgslots) ⟨rfl, rfl⟩ ?_ ?_ ?_ ?_, fun id => ?_⟩
  · rw [f1]
    change Numbered w.newchipinfo
    rw [hw1]
    exact hfits.newchipinfo
  · rw [f2]
    change Numbered w.chipinfoarr
    rw [hw2]
    exact b2
  · rw [f3]
    change w.inchipinfoarr = _
    rw [hw3, b3]
    rfl
  · rw [hset, setequip_shadow]
    exact setequip_congr (setequip_congr hw4)
  · rw [← htotal id, ← b5 id, total, total, f1, f2, f3]
    change tally (held id) w.newchipinfo + tally (held id) w.chipinfoarr +
      tally (held id) w.inchipinfoarr = _
    rw [hw1, hw2, hw3, b1]

end Chips

end Athena
