import SystemdCron.UnitNames
import SystemdCron.Scriptlet
import SystemdCron.Render
import SystemdCron.BatchHelper
import SystemdCron.ThrottleExclusion
import SystemdCron.RandomField
import SystemdCron.FieldIndices
import SystemdCron.NumberList
import SystemdCron.Periods
import SystemdCron.RawSchedule
import SystemdCron.DispatchRate
import SystemdCron.Install
import SystemdCron.EnvironmentLine
import SystemdCron.Inheritance
import SystemdCron.InputData
import SystemdCron.ControlVariables
import SystemdCron.BootDelay
import SystemdCron.Description
import SystemdCron.DirectStart
import SystemdCron.SpoolNames
import SystemdCron.RunPartsNames
import SystemdCron.Reload
import SystemdCron.EnumerationOrder
import SystemdCron.CheckAgreement
import SystemdCron.Threshold
import SystemdCron.PackedTime
import SystemdCron.CommandViews
import SystemdCron.Colour
import SystemdCron.AccessLists
import SystemdCron.StartHour
import SystemdCron.LogBuffer
import SystemdCron.TildePath
import SystemdCron.LastDay
import SystemdCron.DayRule
import SystemdCron.UnitSettings
import SystemdCron.UnitReading
import SystemdCron.CrontabOutcome
import SystemdCron.Boot
import SystemdCron.UserUnits
import SystemdCron.SpoolWhole
