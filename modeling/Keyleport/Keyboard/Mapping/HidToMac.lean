import Mathlib.Data.List.Basic

/-!
# Virtual keycodes of macOS

`keyboard/mapping/hid_to_mac.cpp`: the virtual keycode of a USB HID code.
-/

namespace Keyleport

/-- The cases of `hid_to_mac_vk`, over its five switches: the HID code and the keycode. -/
def hidToMacCases : List (UInt16 × UInt16) :=
  [
    -- letters A-Z
    (4, 0), (5, 11), (6, 8), (7, 2), (8, 14), (9, 3), (10, 5), (11, 4), (12, 34), (13, 38),
    (14, 40), (15, 37), (16, 46), (17, 45), (18, 31), (19, 35), (20, 12), (21, 15), (22, 1),
    (23, 17), (24, 32), (25, 9), (26, 13), (27, 7), (28, 16), (29, 6),
    -- digits and symbols (top row)
    (30, 18), (31, 19), (32, 20), (33, 21), (34, 23), (35, 22), (36, 26), (37, 28), (38, 25),
    (39, 29), (45, 27), (46, 24), (42, 51), (43, 48),
    -- punctuation, brackets, space
    (47, 33), (48, 30), (49, 42), (51, 41), (52, 39), (53, 50), (54, 43), (55, 47), (56, 44),
    (44, 49),
    -- controls and navigation
    (40, 36), (41, 53), (57, 57), (224, 59), (225, 56), (226, 58), (227, 55), (228, 62),
    (229, 60), (230, 61), (231, 54), (79, 124), (80, 123), (81, 125), (82, 126), (75, 115),
    (77, 119), (74, 116), (78, 121), (76, 117),
    -- function keys F1..F12
    (58, 122), (59, 120), (60, 99), (61, 118), (62, 96), (63, 97), (64, 98), (65, 100), (66, 101),
    (67, 109), (68, 103), (69, 111)]

/-- `hid_to_mac_vk`, with the value it writes to `vk` when it returns true. -/
def hidToMacVk (hid : UInt16) : Option UInt16 := hidToMacCases.lookup hid

end Keyleport
