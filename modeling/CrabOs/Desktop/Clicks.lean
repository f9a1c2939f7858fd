import CrabOs.Desktop.Composition

/-! A press of the left button does what the cell under the pointer shows. -/
namespace CrabOs
open Vga Painting

/-- The window a cell belongs to. -/
def Vga.Layer.owner : Layer → Option (Fin 2)
  | .window index _ => some index
  | _ => none

namespace Desktop

/-- The icon that opens a terminal. -/
def OnIcon (d : Desktop) : Prop :=
  3 ≤ d.pointerX ∧ d.pointerX ≤ 12 ∧ 1 ≤ d.pointerY ∧ d.pointerY ≤ 3

instance decidableOnIcon (d : Desktop) : Decidable d.OnIcon :=
  inferInstanceAs (Decidable (_ ∧ _ ∧ _ ∧ _))

/-- What a press does, told from what was drawn last under the pointer. -/
structure PressFollows (d : Desktop) (layer : Layer) : Prop where
  window : d.hit = layer.owner
  focus : d.press.1.active = layer.owner.getD d.active
  close : ∀ index : Fin 2, d.press.2 = some (.closeTerminal index) ↔ layer = .window index .close
  title : ∀ index, (∃ drag, d.press.1.drag = some drag ∧ drag.index = index) ↔
    layer = .window index .title
  icon : d.press.2 = some .openTerminal ↔ layer = .backdrop ∧ d.OnIcon

lemma hits_iff {d : Desktop} {s : Spot} (hs : s ∈ d.pointerArea) (index : Fin 2) :
    d.hits index = true ↔ s ∈ d.windowArea index := by
  obtain ⟨hrow,hcol⟩ := hs
  unfold hits
  cases hr : d.layout index with
  | none => simp [windowArea,hr]
  | some r =>
    simp only [windowArea,hr,Option.some.injEq,exists_eq_left',Rect.Covers,hrow,hcol,
      decide_eq_true_eq,Set.mem_ofPred_eq]

/-- The layer on top, below the pointer. -/
lemma composed_layer {d : Desktop} {terminals : Fin 2 → Writer} {backdrop : Spot → Pixel}
    {window : Fin 2 → Spot → Pixel} (s : Spot) : (composed d terminals backdrop window s).layer =
      (stamp (d.windowArea d.active) (fun s _ => window d.active s) s
        (stamp (d.windowArea (otherTerminal d.active))
          (fun s _ => window (otherTerminal d.active) s) s (backdrop s))).layer := by
  have hcursor : ∀ a, (stamp (d.cursorArea terminals) (fun _ => Pixel.highlight) s a).layer =
      a.layer := by
    intro a
    unfold stamp
    split_ifs
    · rfl
    · rfl
  have hpointer : ∀ a, (stamp d.pointerArea
      (fun _ => Pixel.draw .pointer ⟨43,colorCode .white .blue⟩) s a).layer = a.layer := by
    intro a
    unfold stamp
    split_ifs
    · rfl
    · rfl
  rw [composed,hpointer,hcursor]

lemma hit_eq (d : Desktop) : d.hit = if d.hits d.active then some d.active
    else if d.hits (otherTerminal d.active) then some (otherTerminal d.active) else none := by
  unfold hit
  rw [List.find?_cons,List.find?_cons]
  cases d.hits d.active with
  | true => rfl
  | false =>
    cases d.hits (otherTerminal d.active) with
    | true => rfl
    | false => rfl

lemma press_of_hit {d : Desktop} {index : Fin 2} {r : Rect} (hhit : d.hit = some index)
    (hr : d.layout index = some r) :
    d.press =
      if d.pointerY = r.y ∧ r.x+r.width-4 ≤ d.pointerX ∧ d.pointerX < r.x+r.width-1 then
        ({ d with drag := none, active := index },some (.closeTerminal index))
      else if d.pointerY = r.y then
        ({ d with
          drag := some ⟨index,d.pointerX-r.x,d.pointerY-r.y⟩
          active := index },none)
      else ({ d with drag := none, active := index },none) := by
  unfold press
  simp only [hhit,hr]

lemma press_of_miss {d : Desktop} (hhit : d.hit = none) :
    d.press = ({ d with drag := none },if d.OnIcon then some .openTerminal else none) := by
  unfold press
  simp only [hhit]
  exact (apply_ite (Prod.mk { d with drag := none }) d.OnIcon _ _).symm

/-- A press on a window, part by part. -/
lemma press_window {d : Desktop} {index : Fin 2} {r : Rect} (hhit : d.hit = some index)
    (hr : d.layout index = some r) :
    PressFollows d (.window index (if d.pointerY = r.y then
        if r.x+r.width-4 ≤ d.pointerX ∧ d.pointerX < r.x+r.width-1 then .close else .title
      else .body)) := by
  have hpress := press_of_hit hhit hr
  by_cases htitle : d.pointerY = r.y
  · by_cases hclose : r.x+r.width-4 ≤ d.pointerX ∧ d.pointerX < r.x+r.width-1
    · rw [if_pos ⟨htitle,hclose⟩] at hpress
      rw [if_pos htitle,if_pos hclose]
      constructor
      case window => exact hhit
      case focus =>
        rw [hpress]
        rfl
      case close =>
        intro i
        simp [hpress,Fin.val_inj]
      case title =>
        intro i
        simp [hpress]
      case icon => simp [hpress]
    · rw [if_neg fun h => hclose h.2,if_pos htitle] at hpress
      rw [if_pos htitle,if_neg hclose]
      constructor
      case window => exact hhit
      case focus =>
        rw [hpress]
        rfl
      case close =>
        intro i
        simp [hpress]
      case title =>
        intro i
        simp [hpress]
      case icon => simp [hpress]
  · rw [if_neg fun h => htitle h.1,if_neg htitle] at hpress
    rw [if_neg htitle]
    constructor
    case window => exact hhit
    case focus =>
      rw [hpress]
      rfl
    case close =>
      intro i
      simp [hpress]
    case title =>
      intro i
      simp [hpress]
    case icon => simp [hpress]

/-- A press beside the windows. -/
lemma press_backdrop {d : Desktop} (hhit : d.hit = none) : PressFollows d .backdrop := by
  have hpress := press_of_miss hhit
  constructor
  case window => exact hhit
  case focus =>
    rw [hpress]
    rfl
  case close =>
    intro i
    rw [hpress]
    split_ifs
    · simp
    · simp
  case title =>
    intro i
    simp [hpress]
  case icon =>
    rw [hpress]
    split_ifs with hicon
    · simp [hicon]
    · simp [hicon]

/-- The part of a window under the pointer. -/
lemma windowPart_pointer {d : Desktop} {r : Rect} {s : Spot} (hs : s ∈ d.pointerArea)
    (hcovers : r.Covers s) (hwidth : 4 ≤ r.width) :
    windowPart r.width.toNat ((s.row : ℤ)-r.y).toNat ((s.col : ℤ)-r.x).toNat =
      if d.pointerY = r.y then
        if r.x+r.width-4 ≤ d.pointerX ∧ d.pointerX < r.x+r.width-1 then .close else .title
      else .body := by
  obtain ⟨hrow,hcol⟩ := hs
  obtain ⟨hleft,hright,htop,hbottom⟩ := hcovers
  have hfirst : ((s.row : ℤ)-r.y).toNat = 0 ↔ d.pointerY = r.y := by omega
  have hclose : (r.width.toNat-4 ≤ ((s.col : ℤ)-r.x).toNat ∧
      ((s.col : ℤ)-r.x).toNat < r.width.toNat-1) ↔
      (r.x+r.width-4 ≤ d.pointerX ∧ d.pointerX < r.x+r.width-1) := by omega
  unfold windowPart
  simp only [hfirst,hclose]

lemma exists_pointer {d : Desktop} (h : Valid d) : ∃ s, s ∈ d.pointerArea := by
  obtain ⟨hx,hx'⟩ := h.pointerX
  obtain ⟨hy,hy'⟩ := h.pointerY
  simp only [screenW,screenH] at hx' hy'
  refine ⟨⟨d.pointerY.toNat,d.pointerX.toNat,?_,?_⟩,?_,?_⟩
  · unfold bufferHeight
    omega
  · unfold bufferWidth
    omega
  · exact Int.toNat_of_nonneg hy
  · exact Int.toNat_of_nonneg hx

section Composed
variable {d : Desktop} {terminals : Fin 2 → Writer} {backdrop : Spot → Pixel}
  {window : Fin 2 → Spot → Pixel} {s : Spot}

/-- A press lands on what is on top at the cell of the pointer. -/
lemma pressFollows_composed (hbackdrop : ∀ s, (backdrop s).layer = .backdrop)
    (hwindow : ∀ index, WindowShows d terminals index (window index)) (hs : s ∈ d.pointerArea) :
    PressFollows d (composed d terminals backdrop window s).layer := by
  have hfollows : ∀ index, d.hit = some index → s ∈ d.windowArea index →
      PressFollows d (window index s).layer := by
    rintro index hhit ⟨r,hr,hcovers⟩
    have hwidth := width_cases hr
    rw [(hwindow index).layer r s hr hcovers,windowPart_pointer hs hcovers (by omega)]
    exact press_window hhit hr
  have hhit := hit_eq d
  rw [composed_layer]
  by_cases hactive : s ∈ d.windowArea d.active
  · rw [if_pos ((hits_iff hs _).mpr hactive)] at hhit
    rw [stamp_of hactive]
    exact hfollows _ hhit hactive
  · rw [if_neg fun hh => hactive ((hits_iff hs _).mp hh)] at hhit
    rw [stamp_of_not hactive]
    by_cases hother : s ∈ d.windowArea (otherTerminal d.active)
    · rw [if_pos ((hits_iff hs _).mpr hother)] at hhit
      rw [stamp_of hother]
      exact hfollows _ hhit hother
    · rw [if_neg fun hh => hother ((hits_iff hs _).mp hh)] at hhit
      rw [stamp_of_not hother,hbackdrop]
      exact press_backdrop hhit

/-- The part of a window that closes it is where its button is drawn. -/
lemma close_of_layer {index index' : Fin 2} {r : Rect}
    (hwindow : WindowShows d terminals index (window index)) (hr : d.layout index = some r)
    (hcovers : r.Covers s) (hlayer : (window index s).layer = .window index' .close) :
    index' = index ∧ ∃ k, OnClose r k s ∧
      (window index s).char = ⟨(literal "[x]").getD k 0,colorCode .white .red⟩ := by
  have hwidth := width_cases hr
  rw [hwindow.layer r s hr hcovers] at hlayer
  injection hlayer with hindex hpart
  refine ⟨hindex.symm,?_⟩
  obtain ⟨hleft,hright,htop,hbottom⟩ := hcovers
  unfold windowPart at hpart
  split_ifs at hpart with hrow hcol
  have hclose : OnClose r ((s.col : ℤ)-(r.x+r.width-4)).toNat s :=
    ⟨by omega,by omega,by omega⟩
  exact ⟨_,hclose,hwindow.close r _ s hr hclose⟩

lemma close_composed (hbackdrop : ∀ s, (backdrop s).layer = .backdrop)
    (hwindow : ∀ index, WindowShows d terminals index (window index)) (hs : s ∉ d.pointerArea)
    {index : Fin 2} (hlayer : (composed d terminals backdrop window s).layer =
      .window index .close) : ∃ r k, d.layout index = some r ∧ OnClose r k s ∧
        (composed d terminals backdrop window s).char =
          ⟨(literal "[x]").getD k 0,colorCode .white .red⟩ := by
  rw [composed_layer] at hlayer
  by_cases hactive : s ∈ d.windowArea d.active
  · rw [stamp_of hactive] at hlayer
    have harea := hactive
    obtain ⟨r,hr,hcovers⟩ := hactive
    obtain ⟨rfl,k,hclose,hchar⟩ := close_of_layer (hwindow d.active) hr hcovers hlayer
    have hcursor : s ∉ d.cursorArea terminals := by
      rintro ⟨r',row,col,hr',⟨-,-,hrow,-⟩,-⟩
      rw [hr] at hr'
      cases hr'
      have := hclose.2.1
      omega
    refine ⟨r,k,hr,hclose,?_⟩
    rw [composed_active harea hs,stamp_of_not hcursor,hchar]
  · rw [stamp_of_not hactive] at hlayer
    by_cases hother : s ∈ d.windowArea (otherTerminal d.active)
    · rw [stamp_of hother] at hlayer
      have harea := hother
      obtain ⟨r,hr,hcovers⟩ := hother
      obtain ⟨rfl,k,hclose,hchar⟩ := close_of_layer (hwindow _) hr hcovers hlayer
      refine ⟨r,k,hr,hclose,?_⟩
      rw [composed_other harea hactive hs,hchar]
    · rw [stamp_of_not hother,hbackdrop] at hlayer
      cases hlayer

end Composed

/-- The press is decided by what is drawn on top at the cell of the pointer; the cells that close a
window are those that show its button. -/
theorem press_follows_frame {d : Desktop} (h : Valid d) (terminals : Fin 2 → Writer)
    (old : Frame) : ∃ frame s, d.renderDesktop terminals old = some frame ∧ s ∈ d.pointerArea ∧
      PressFollows d (frame.pixel s).layer ∧
      ∀ s' index, s' ∉ d.pointerArea → (frame.pixel s').layer = .window index .close →
        ∃ r k, d.layout index = some r ∧ OnClose r k s' ∧
          (frame.pixel s').char = ⟨(literal "[x]").getD k 0,colorCode .white .red⟩ := by
  obtain ⟨backdrop,hbackdrop,hrender⟩ := renderDesktop_paints
  obtain ⟨window,hwindow,hpaints⟩ := hrender d h terminals
  obtain ⟨frame,hframe,hcells⟩ := hpaints old
  obtain ⟨s,hs⟩ := exists_pointer h
  have hpixel : ∀ s, frame.pixel s = composed d terminals backdrop window s := hcells
  refine ⟨frame,s,hframe,hs,?_,fun s' index hs' hlayer => ?_⟩
  · rw [hpixel]
    exact pressFollows_composed hbackdrop hwindow hs
  · rw [hpixel] at hlayer ⊢
    exact close_composed hbackdrop hwindow hs' hlayer

theorem press_follows_frame_two_windows :
    ∃ frame s, initial.openWindow.1.openWindow.1.renderDesktop (fun _ => .new)
        (.replicate _ ⟨blank,.backdrop⟩) = some frame ∧
      s ∈ initial.openWindow.1.openWindow.1.pointerArea ∧
      PressFollows initial.openWindow.1.openWindow.1 (frame.pixel s).layer ∧
      ∀ s' index, s' ∉ initial.openWindow.1.openWindow.1.pointerArea →
        (frame.pixel s').layer = .window index .close →
        ∃ r k, initial.openWindow.1.openWindow.1.layout index = some r ∧ OnClose r k s' ∧
          (frame.pixel s').char = ⟨(literal "[x]").getD k 0,colorCode .white .red⟩ :=
  press_follows_frame settled_initial.openWindow.openWindow.valid (fun _ => .new) _

end Desktop
end CrabOs
