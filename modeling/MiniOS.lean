import MiniOS.Memory.Handoff
import MiniOS.Memory.Order
import MiniOS.Memory.History
import MiniOS.Memory.Walk
import MiniOS.Memory.Signed
import MiniOS.Vga.Checked
import MiniOS.Chat.Fifo
import MiniOS.Chat.Poll
import MiniOS.Chat.Agreement
import MiniOS.Chat.Bounds
import MiniOS.Chat.Transfer
import MiniOS.Chat.Recognition
import MiniOS.Chat.Private
import MiniOS.Interrupt.Handlers
import MiniOS.Interrupt.Acknowledge
import MiniOS.Segment.Gdt
import MiniOS.Boot.Space
import MiniOS.Interrupt.Keys
import MiniOS.Serial.Transmit
import MiniOS.Serial.Receive
import MiniOS.Chat.Schedule
import MiniOS.Segment.Delivery
import MiniOS.Kmain.Runs
