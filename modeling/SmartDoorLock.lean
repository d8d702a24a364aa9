import SmartDoorLock.Lib.Machine
import SmartDoorLock.Lib.WrapClock
import SmartDoorLock.Lib.CText
import SmartDoorLock.Lib.Ring
import SmartDoorLock.Lib.Line
import SmartDoorLock.Lib.Words
import SmartDoorLock.Firmware.Door
import SmartDoorLock.Firmware.DoorHistory
import SmartDoorLock.Firmware.DoorWindow
import SmartDoorLock.Firmware.DeviceTable
import SmartDoorLock.Firmware.Dedup
import SmartDoorLock.Firmware.MainLoop
import SmartDoorLock.Firmware.MainLoopTables
import SmartDoorLock.Firmware.Freshness
import SmartDoorLock.Firmware.LockedReports
import SmartDoorLock.Server.Db
import SmartDoorLock.Server.Expiry
import SmartDoorLock.Server.Callback
import SmartDoorLock.Server.MqttHandler
import SmartDoorLock.Server.Bot
import SmartDoorLock.Protocol.DeviceSend
import SmartDoorLock.Serial.Uart
import SmartDoorLock.Serial.RingConsistency
import SmartDoorLock.Serial.SerialIo
import SmartDoorLock.Serial.Stream
import SmartDoorLock.Serial.Connection
import SmartDoorLock.Cellular.Program
import SmartDoorLock.Cellular.Dialogue
import SmartDoorLock.Server.Buttons
import SmartDoorLock.Server.Sessions
import SmartDoorLock.Firmware.Chunks
import SmartDoorLock.Firmware.SendPass
import SmartDoorLock.Firmware.PassBuckets
import SmartDoorLock.Firmware.Eviction
import SmartDoorLock.Serial.Transmission
import SmartDoorLock.Cellular.Operators
import SmartDoorLock.Cellular.LifeCycle
import SmartDoorLock.Serial.Reception
import SmartDoorLock.Serial.Receive
import SmartDoorLock.Cellular.OperatorText
import SmartDoorLock.Cellular.OperatorBounds
import SmartDoorLock.Cellular.Identifiers
import SmartDoorLock.Cellular.Getters
import SmartDoorLock.Cellular.SignalInfo
import SmartDoorLock.Display.Print
import SmartDoorLock.Cellular.FailedQueries
import SmartDoorLock.Firmware.PendingTable
import SmartDoorLock.Cellular.Driver
import SmartDoorLock.Cellular.Selection
import SmartDoorLock.Cellular.Waiting
import SmartDoorLock.Display.Screen
import SmartDoorLock.Firmware.Fairness
import SmartDoorLock.Protocol.Authorisation
import SmartDoorLock.Protocol.Period
import SmartDoorLock.Protocol.Provenance
import SmartDoorLock.Protocol.Registration
import SmartDoorLock.Server.Menu
import SmartDoorLock.Protocol.Orders
import SmartDoorLock.Server.LazyDeletion
